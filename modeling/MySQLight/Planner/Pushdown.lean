import MySQLight.Data.Traverse
import MySQLight.Planner.Semantics

/-!
When predicate pushdown keeps the rows of a plan.

A plan is read here with names that know their tables: `T.c` is the column
`c` of the table `T`, and `c` alone is the only column of that name in the
scope. The rows of a plan are computed in full, so a row on which a
predicate fails makes the plan fail.

The pass looks at the qualified references of a predicate only. Below the
join the other references may name nothing, and the predicate meets rows
that have no partner; so it may fail there and not above the join. This is
all that can go wrong.
-/

namespace MySQLight.Planner

open MySQLight.Data MySQLight.Schema MySQLight.Sql

/-! ### Names in a scope -/

/-- The columns of a row, with the tables they come from. -/
abbrev Scope : Type := List (Bytes × ColumnDef)

/-- `table.column` names the entry, or `column` alone. -/
def names (table column : Bytes) (entry : Bytes × ColumnDef) : Bool :=
  (table = [] ∨ entry.1 = table) ∧ entry.2.name = column

/-- The value of a reference, which has to name one column. -/
def lookup (scope : Scope) (row : Row) (table column : Bytes) : Option Datum :=
  match (scope.zip row).filter fun p => names table column p.1 with
  | [(entry, v)] => some (cell v entry.2.type)
  | _ => none

/-- The value of an expression under a meaning of the references; there is
none if the evaluation fails. -/
def evalWith (ref : Bytes → Bytes → Option Datum) : Expr → Option Datum
  | .literal kind value => (evalLiteral kind value).toOption
  | .columnRef table column => ref table column
  | .binaryExpr left op right => do
      (applyBinaryOp op (← evalWith ref left) (← evalWith ref right)).toOption
  | .unaryExpr op operand => do (applyUnaryOp op (← evalWith ref operand)).toOption
  | .funcCall .. | .starExpr => none

/-- Two meanings that agree where both are defined give one value. -/
theorem evalWith_agree {ref ref' : Bytes → Bytes → Option Datum}
    (hagree : ∀ table column d d', ref table column = some d → ref' table column = some d' → d = d')
    {e : Expr} {d d' : Datum} (h : evalWith ref e = some d) (h' : evalWith ref' e = some d') :
    d = d' := by
  fun_induction evalWith ref e generalizing d d' with
  | case1 kind value => exact Option.some.inj (h.symm.trans h')
  | case2 table column => exact hagree table column d d' h h'
  | case3 left op right ihl ihr =>
    rw [evalWith] at h'
    obtain ⟨x, hx, y, hy, hxy⟩ :
      ∃ x, evalWith ref left = some x ∧ ∃ y, evalWith ref right = some y ∧
        (applyBinaryOp op x y).toOption = some d := by
      simpa [Option.bind_eq_some_iff] using h
    obtain ⟨x', hx', y', hy', hxy'⟩ : ∃ x, evalWith ref' left = some x ∧
        ∃ y, evalWith ref' right = some y ∧ (applyBinaryOp op x y).toOption = some d' := by
      simpa [Option.bind_eq_some_iff] using h'
    cases ihl hx hx'
    cases ihr hy hy'
    exact Option.some.inj (hxy.symm.trans hxy')
  | case4 op operand ih =>
    rw [evalWith] at h'
    obtain ⟨x, hx, hxd⟩ := Option.bind_eq_some_iff.mp h
    obtain ⟨x', hx', hxd'⟩ := Option.bind_eq_some_iff.mp h'
    cases ih hx hx'
    exact Option.some.inj (hxd.symm.trans hxd')
  | case5 | case6 => cases h

variable {s s' : Scope} {row row' : Row}

theorem lookup_eq_some {table column : Bytes} {d : Datum} (h : lookup s row table column = some d) :
    ∃ p : (Bytes × ColumnDef) × Value, ((s.zip row).filter fun p => names table column p.1) = [p] ∧
      cell p.2 p.1.2.type = d := by
  rw [lookup] at h
  split at h
  · next entry v hfilter => exact ⟨(entry, v), hfilter, Option.some.inj h⟩
  · cases h

/-- A name that is defined on a side of a join and on the join means the
same column. -/
theorem lookup_append (hrow : row.length = s.length) {table column : Bytes} {d d' : Datum}
    (h : lookup s row table column = some d ∨ lookup s' row' table column = some d)
    (hboth : lookup (s ++ s') (row ++ row') table column = some d') : d = d' := by
  obtain ⟨p, hp, rfl⟩ := lookup_eq_some hboth
  rw [List.zip_append hrow.symm, List.filter_append, List.append_eq_singleton_iff] at hp
  obtain h | h := h
  · obtain ⟨q, hq, rfl⟩ := lookup_eq_some h
    obtain ⟨hnil, -⟩ | ⟨hone, -⟩ := hp
    · cases hq.symm.trans hnil
    · cases hq.symm.trans hone
      rfl
  · obtain ⟨q, hq, rfl⟩ := lookup_eq_some h
    obtain ⟨-, hone⟩ | ⟨-, hnil⟩ := hp
    · cases hq.symm.trans hone
      rfl
    · cases hq.symm.trans hnil

/-! ### Rows of a plan -/

/-- The rows on which a predicate is true, if it does not fail on any. -/
def keep (predicate : Expr) (scope : Scope) : List Row → Option (List Row)
  | [] => some []
  | row :: rows => do
      let d ← evalWith (lookup scope row) predicate
      let rest ← keep predicate scope rows
      return if d = .bool true then row :: rest else rest

def pairs (leftRows rightRows : List Row) : List Row :=
  leftRows.flatMap fun leftRow => rightRows.map (leftRow ++ ·)

/-- The entry of an expression of a select list. -/
def outputEntry (scope : Scope) : Expr → Bytes × ColumnDef
  | .columnRef table column => (scope.find? (names table column)).getD ([], unnamed)
  | _ => ([], unnamed)

namespace LogicalNode

def scope : LogicalNode → Scope
  | .scan table columns => columns.map (table, ·)
  | .indexScan table _ _ columns _ _ _ => columns.map (table, ·)
  | .filter child _ | .sort child _ | .limit child _ => child.scope
  | .project child exprs =>
    if isSelectStar exprs then child.scope else exprs.map (outputEntry child.scope)
  | .join left right _ => left.scope ++ right.scope
  | .aggregate child _ aggs => aggs.map (outputEntry child.scope)

/-- The rows of a plan of scans, filters, joins and projections, from the
rows of the tables, which have a value for each name of a column. There are
none if an expression fails on a row. -/
def evaluate (tables : Bytes → List (Bytes → Value)) : LogicalNode → Option (List Row)
  | .scan table columns =>
    some ((tables table).map fun tuple => columns.map fun column => tuple column.name)
  | .filter child predicate => do keep predicate child.scope (← child.evaluate tables)
  | .join left right condition => do
      let rows := pairs (← left.evaluate tables) (← right.evaluate tables)
      match condition with
      | none => return rows
      | some condition => keep condition (left.scope ++ right.scope) rows
  | .project child exprs => do
      let rows ← child.evaluate tables
      if isSelectStar exprs then return rows
      else rows.mapM fun row => do
        return (← exprs.mapM (evalWith (lookup child.scope row))).map toValue
  | .indexScan .. | .aggregate .. | .sort .. | .limit .. => none

end LogicalNode

/-- The predicate is true of the row. -/
def met (predicate : Expr) (scope : Scope) (row : Row) : Bool :=
  evalWith (lookup scope row) predicate = some (.bool true)

variable {predicate : Expr} {rows rows' : List Row}

theorem keep_of_defined (h : ∀ row ∈ rows, ∃ d, evalWith (lookup s row) predicate = some d) :
    keep predicate s rows = some (rows.filter (met predicate s)) := by
  induction rows with
  | nil => rfl
  | cons row rows ih =>
    obtain ⟨⟨d, hd⟩, hrows⟩ := List.forall_mem_cons.mp h
    rw [keep, hd, ih hrows, List.filter_cons, met, hd]
    simp

theorem defined_of_keep (h : keep predicate s rows = some rows') :
    ∀ row ∈ rows, ∃ d, evalWith (lookup s row) predicate = some d := by
  induction rows generalizing rows' with
  | nil => nofun
  | cons row rows ih =>
    obtain ⟨d, hd, h⟩ := Option.bind_eq_some_iff.mp h
    obtain ⟨rest, hrest, -⟩ := Option.bind_eq_some_iff.mp h
    exact List.forall_mem_cons.mpr ⟨⟨d, hd⟩, ih hrest⟩

theorem keep_eq_some :
    keep predicate s rows = some rows' ↔
      (∀ row ∈ rows, ∃ d, evalWith (lookup s row) predicate = some d) ∧
        rows' = rows.filter (met predicate s) := by
  constructor
  · intro h
    have hdefined := defined_of_keep h
    rw [keep_of_defined hdefined] at h
    exact ⟨hdefined, (Option.some.inj h).symm⟩
  · rintro ⟨hdefined, rfl⟩
    exact keep_of_defined hdefined

variable {tables : Bytes → List (Bytes → Value)} {child left right : LogicalNode}
  {condition : Option Expr}

theorem evaluate_filter :
    (LogicalNode.filter child predicate).evaluate tables = some rows ↔
      ∃ rows₀, child.evaluate tables = some rows₀ ∧
        (∀ row ∈ rows₀, ∃ d, evalWith (lookup child.scope row) predicate = some d) ∧
        rows = rows₀.filter (met predicate child.scope) := by
  simp only [← keep_eq_some]
  exact Option.bind_eq_some_iff

/-- The condition of a join is true of a pair of rows. -/
def metOn (condition : Option Expr) (s : Scope) (row : Row) : Bool :=
  condition.all (met · s row)

theorem evaluate_join :
    (LogicalNode.join left right condition).evaluate tables = some rows ↔
      ∃ leftRows rightRows, left.evaluate tables = some leftRows ∧
        right.evaluate tables = some rightRows ∧
        (∀ row ∈ pairs leftRows rightRows, ∀ c ∈ condition,
          ∃ d, evalWith (lookup (left.scope ++ right.scope) row) c = some d) ∧
        rows = (pairs leftRows rightRows).filter (metOn condition (left.scope ++ right.scope)) := by
  rw [LogicalNode.evaluate]
  refine Option.bind_eq_some_iff.trans (exists_congr fun leftRows => ?_)
  rw [exists_and_left]
  refine and_congr_right fun _ => ?_
  refine Option.bind_eq_some_iff.trans (exists_congr fun rightRows => and_congr_right fun _ => ?_)
  cases condition with
  | none =>
    have hall : (pairs leftRows rightRows).filter (metOn none (left.scope ++ right.scope)) =
        pairs leftRows rightRows := List.filter_eq_self.mpr fun _ _ => rfl
    rw [hall]
    simp [eq_comm]
  | some c =>
    have hone : metOn (some c) (left.scope ++ right.scope) =
        met c (left.scope ++ right.scope) := by
      funext row
      rw [metOn, Option.all_some]
    rw [hone]
    refine keep_eq_some.trans (and_congr_left' ?_)
    simp

theorem mem_pairs {leftRows rightRows : List Row} :
    row ∈ pairs leftRows rightRows ↔ ∃ a ∈ leftRows, ∃ b ∈ rightRows, a ++ b = row := by
  simp [pairs]

variable {node : LogicalNode} {c : Option Expr}

/-- A row has a value for each entry of the scope. -/
theorem length_of_evaluate (h : node.evaluate tables = some rows) :
    ∀ row ∈ rows, row.length = node.scope.length := by
  induction node generalizing rows with
  | scan table columns =>
    cases h
    intro row hrow
    obtain ⟨tuple, -, rfl⟩ := List.mem_map.mp hrow
    rw [LogicalNode.scope, List.length_map, List.length_map]
  | filter child predicate ih =>
    obtain ⟨rows₀, hchild, -, rfl⟩ := evaluate_filter.mp h
    exact fun row hrow => ih hchild row (List.mem_of_mem_filter hrow)
  | join left right condition ihl ihr =>
    obtain ⟨leftRows, rightRows, hleft, hright, -, rfl⟩ := evaluate_join.mp h
    intro row hrow
    obtain ⟨a, ha, b, hb, rfl⟩ := mem_pairs.mp (List.mem_of_mem_filter hrow)
    rw [LogicalNode.scope, List.length_append, List.length_append, ihl hleft a ha,
      ihr hright b hb]
  | project child exprs ih =>
    obtain ⟨rows₀, hchild, h⟩ := Option.bind_eq_some_iff.mp h
    rw [LogicalNode.scope]
    split_ifs at h ⊢ with hstar
    · cases h
      exact ih hchild
    · intro row hrow
      obtain ⟨row₀, -, hrow₀⟩ := exists_of_forall₂ (forall₂_of_mapM h) hrow
      obtain ⟨values, hvalues, hrow₀⟩ := Option.bind_eq_some_iff.mp hrow₀
      cases hrow₀
      rw [List.length_map, List.length_map, (forall₂_of_mapM hvalues).length_eq]
  | _ => cases h

/-! ### Filters that move -/

/-- The sides and the condition of the join under filters that all move,
each side with the filters that move onto it. -/
def joinUnder : LogicalNode → Option (LogicalNode × LogicalNode × Option Expr)
  | .join left right condition => some (left, right, condition)
  | .filter child predicate => do
      let (left, right, condition) ← joinUnder child
      let refs := collectColumnRefTables predicate
      if refs = [] then none
      else if refs ⊆ tablesInSubtree left then some (.filter left predicate, right, condition)
      else if refs ⊆ tablesInSubtree right then some (left, .filter right predicate, condition)
      else none
  | _ => none

/-- No filter fails on the rows of the side that it moves to. -/
def PushSafe (tables : Bytes → List (Bytes → Value)) : LogicalNode → Prop
  | .filter child predicate =>
    PushSafe tables child ∧ ∀ left right condition,
      joinUnder (.filter child predicate) = some (left, right, condition) →
        left.evaluate tables ≠ none ∧ right.evaluate tables ≠ none
  | .join left right _ => PushSafe tables left ∧ PushSafe tables right
  | .project child _ | .aggregate child _ _ | .sort child _ | .limit child _ =>
    PushSafe tables child
  | .scan .. | .indexScan .. => True

/-! ### One filter moves -/

theorem pairs_cons (a : Row) (as bs : List Row) :
    pairs (a :: as) bs = bs.map (a ++ ·) ++ pairs as bs :=
  List.flatMap_cons

section Pairs

variable {as bs : List Row} {f g h : Row → Bool}

theorem filter_pairs_left (hfg : ∀ a ∈ as, ∀ b ∈ bs, h (a ++ b) → f a = g (a ++ b)) :
    (pairs (as.filter f) bs).filter h = ((pairs as bs).filter h).filter g := by
  induction as with
  | nil => rfl
  | cons a as ih =>
    obtain ⟨ha, has⟩ := List.forall_mem_cons.mp hfg
    have hone : (if f a then (bs.map (a ++ ·)).filter h else []) =
        ((bs.map (a ++ ·)).filter h).filter g := by
      have hmem : ∀ row ∈ (bs.map (a ++ ·)).filter h, f a = g row := by
        intro row hrow
        obtain ⟨hrow, hh⟩ := List.mem_filter.mp hrow
        obtain ⟨b, hb, rfl⟩ := List.mem_map.mp hrow
        exact ha b hb hh
      split_ifs with hf
      · exact (List.filter_eq_self.mpr fun row hrow => (hmem row hrow).symm.trans hf).symm
      · refine (List.filter_eq_nil_iff.mpr fun row hrow hg => hf ?_).symm
        exact (hmem row hrow).trans hg
    rw [pairs_cons, List.filter_append, List.filter_append, ← ih has, ← hone, List.filter_cons]
    split_ifs with hf
    · rw [pairs_cons, List.filter_append]
    · rfl

theorem filter_pairs_right (hfg : ∀ a ∈ as, ∀ b ∈ bs, h (a ++ b) → f b = g (a ++ b)) :
    (pairs as (bs.filter f)).filter h = ((pairs as bs).filter h).filter g := by
  induction as with
  | nil => rfl
  | cons a as ih =>
    obtain ⟨ha, has⟩ := List.forall_mem_cons.mp hfg
    have hone : ((bs.filter f).map (a ++ ·)).filter h =
        ((bs.map (a ++ ·)).filter h).filter g := by
      rw [List.filter_filter, List.filter_map, List.filter_map, List.filter_filter]
      refine congrArg (List.map _) (List.filter_congr fun b hb => ?_)
      cases hh : h (a ++ b) with
      | false => simp [hh]
      | true => simp [hh, ha b hb hh]
    rw [pairs_cons, pairs_cons, List.filter_append, List.filter_append, List.filter_append,
      ih has, hone]

end Pairs

/-- A predicate that is defined on a side of a join and on the join has one
value. -/
theorem evalWith_append {a b : Row} (ha : a.length = s.length) {d d' : Datum}
    (h : evalWith (lookup s a) predicate = some d ∨ evalWith (lookup s' b) predicate = some d)
    (hboth : evalWith (lookup (s ++ s') (a ++ b)) predicate = some d') : d = d' := by
  obtain h | h := h
  · exact evalWith_agree (fun table column d d' hd hd' => lookup_append ha (.inl hd) hd') h hboth
  · exact evalWith_agree (fun table column d d' hd hd' => lookup_append ha (.inr hd) hd') h hboth

/-- What a filter over a join keeps is kept by a filter on a side of it. -/
theorem evaluate_moved (hjoin : (LogicalNode.join left right condition).evaluate tables = some rows)
    (hdefined : ∀ row ∈ rows,
      ∃ d, evalWith (lookup (left.scope ++ right.scope) row) predicate = some d) :
    ((LogicalNode.filter left predicate).evaluate tables ≠ none →
      (LogicalNode.join (.filter left predicate) right condition).evaluate tables =
        some (rows.filter (met predicate (left.scope ++ right.scope)))) ∧
    ((LogicalNode.filter right predicate).evaluate tables ≠ none →
      (LogicalNode.join left (.filter right predicate) condition).evaluate tables =
        some (rows.filter (met predicate (left.scope ++ right.scope)))) := by
  obtain ⟨leftRows, rightRows, hleft, hright, hcondition, rfl⟩ := evaluate_join.mp hjoin
  have hlength := length_of_evaluate hleft
  -- Where the condition of the join is true, the predicate has one value.
  have hsame : ∀ a ∈ leftRows, ∀ b ∈ rightRows,
      metOn condition (left.scope ++ right.scope) (a ++ b) →
      ∀ d, (evalWith (lookup left.scope a) predicate = some d ∨
        evalWith (lookup right.scope b) predicate = some d) →
      decide (d = .bool true) = met predicate (left.scope ++ right.scope) (a ++ b) := by
    intro a ha b hb hmet d hd
    have hmem : a ++ b ∈ (pairs leftRows rightRows).filter
        (metOn condition (left.scope ++ right.scope)) :=
      List.mem_filter.mpr ⟨mem_pairs.mpr ⟨a, ha, b, hb, rfl⟩, hmet⟩
    obtain ⟨d', hd'⟩ := hdefined _ hmem
    cases evalWith_append (hlength a ha) hd hd'
    rw [met, hd']
    simp
  constructor
  · intro hsome
    obtain ⟨moved, hmoved⟩ := Option.ne_none_iff_exists'.mp hsome
    obtain ⟨rows₀, hrows₀, hdefinedLeft, rfl⟩ := evaluate_filter.mp hmoved
    cases hleft.symm.trans hrows₀
    refine evaluate_join.mpr ⟨_, rightRows, hmoved, hright, fun row hrow => ?_, ?_⟩
    · obtain ⟨a, ha, b, hb, rfl⟩ := mem_pairs.mp hrow
      exact hcondition _ (mem_pairs.mpr ⟨a, List.mem_of_mem_filter ha, b, hb, rfl⟩)
    · refine (filter_pairs_left fun a ha b hb hmet => ?_).symm
      obtain ⟨d, hd⟩ := hdefinedLeft a ha
      rw [← hsame a ha b hb hmet d (.inl hd), met, hd]
      simp
  · intro hsome
    obtain ⟨moved, hmoved⟩ := Option.ne_none_iff_exists'.mp hsome
    obtain ⟨rows₀, hrows₀, hdefinedRight, rfl⟩ := evaluate_filter.mp hmoved
    cases hright.symm.trans hrows₀
    refine evaluate_join.mpr ⟨leftRows, _, hleft, hmoved, fun row hrow => ?_, ?_⟩
    · obtain ⟨a, ha, b, hb, rfl⟩ := mem_pairs.mp hrow
      exact hcondition _ (mem_pairs.mpr ⟨a, ha, b, List.mem_of_mem_filter hb, rfl⟩)
    · refine (filter_pairs_right fun a ha b hb hmet => ?_).symm
      obtain ⟨d, hd⟩ := hdefinedRight b hb
      rw [← hsame a ha b hb hmet d (.inr hd), met, hd]
      simp

/-! ### All filters over a join -/

/-- What `joinUnder` makes of a filter. -/
theorem joinUnder_filter {l r : LogicalNode}
    (h : joinUnder (.filter child predicate) = some (l, r, c)) :
    ∃ left right, joinUnder child = some (left, right, c) ∧ collectColumnRefTables predicate ≠ [] ∧
      (collectColumnRefTables predicate ⊆ tablesInSubtree left ∧ l = .filter left predicate ∧
          r = right ∨
        ¬ collectColumnRefTables predicate ⊆ tablesInSubtree left ∧
        collectColumnRefTables predicate ⊆ tablesInSubtree right ∧ l = left ∧
          r = .filter right predicate) := by
  rw [joinUnder] at h
  obtain ⟨⟨left, right, condition⟩, hchild, h⟩ := Option.bind_eq_some_iff.mp h
  dsimp only at h
  split_ifs at h with hnil hleft hright
  · cases h
    exact ⟨_, _, hchild, hnil, .inl ⟨hleft, rfl, rfl⟩⟩
  · cases h
    exact ⟨_, _, hchild, hnil, .inr ⟨hleft, hright, rfl, rfl⟩⟩

theorem evaluate_ne_none_of_filter
    (h : (LogicalNode.filter child predicate).evaluate tables ≠ none) :
    child.evaluate tables ≠ none := by
  obtain ⟨rows, hrows⟩ := Option.ne_none_iff_exists'.mp h
  obtain ⟨rows₀, hchild, -⟩ := evaluate_filter.mp hrows
  exact Option.ne_none_iff_exists'.mpr ⟨rows₀, hchild⟩

theorem scope_of_joinUnder {l r : LogicalNode} (hunder : joinUnder node = some (l, r, c)) :
    node.scope = l.scope ++ r.scope := by
  induction node generalizing l r c with
  | join left right condition =>
    cases hunder
    rfl
  | filter child predicate ih =>
    obtain ⟨left, right, hchild, -, ⟨-, rfl, rfl⟩ | ⟨-, -, rfl, rfl⟩⟩ := joinUnder_filter hunder
    · have hscope := ih hchild
      exact hscope
    · have hscope := ih hchild
      exact hscope
  | _ => cases hunder

/-- The filters over a join may all move if they do not fail there. -/
theorem evaluate_joinUnder {l r : LogicalNode} (hunder : joinUnder node = some (l, r, c))
    (h : node.evaluate tables = some rows) (hl : l.evaluate tables ≠ none)
    (hr : r.evaluate tables ≠ none) : (LogicalNode.join l r c).evaluate tables = some rows := by
  induction node generalizing l r c rows with
  | join left right condition =>
    cases hunder
    exact h
  | filter child predicate ih =>
    obtain ⟨rows₀, hrows₀, hdefined, rfl⟩ := evaluate_filter.mp h
    obtain ⟨left, right, hchild, -, hmoves⟩ := joinUnder_filter hunder
    rw [scope_of_joinUnder hchild] at hdefined ⊢
    obtain ⟨-, rfl, rfl⟩ | ⟨-, -, rfl, rfl⟩ := hmoves
    · have hjoin := ih hchild hrows₀ (evaluate_ne_none_of_filter hl) hr
      exact (evaluate_moved hjoin hdefined).1 hl
    · have hjoin := ih hchild hrows₀ hl (evaluate_ne_none_of_filter hr)
      exact (evaluate_moved hjoin hdefined).2 hr
  | _ => cases hunder

/-! ### The pass -/

/-- What the pass makes of a filter. -/
theorem pushFilter_cases (child : LogicalNode) (predicate : Expr) :
    pushFilter child predicate = .filter child predicate ∨
      ∃ l r c, child = .join l r c ∧
        (pushFilter child predicate = .join (.filter l predicate) r c ∨
          pushFilter child predicate = .join l (.filter r predicate) c) := by
  cases child with
  | join l r c =>
    rw [pushFilter]
    split_ifs with hnil hleft hright
    · exact .inl rfl
    · exact .inr ⟨l, r, c, rfl, .inl rfl⟩
    · exact .inr ⟨l, r, c, rfl, .inr rfl⟩
    · exact .inl rfl
  | _ => exact .inl rfl

theorem tablesInSubtree_predicatePushdown (node : LogicalNode) :
    tablesInSubtree (predicatePushdown node) = tablesInSubtree node := by
  induction node with
  | scan | indexScan => rfl
  | filter child predicate ih =>
    rw [predicatePushdown, tablesInSubtree, ← ih]
    obtain h | ⟨l, r, c, hchild, h | h⟩ := pushFilter_cases (predicatePushdown child) predicate
    · rw [h, tablesInSubtree]
    · rw [h, hchild]
      rfl
    · rw [h, hchild]
      rfl
  | join left right condition ihl ihr =>
    rw [predicatePushdown, tablesInSubtree, ihl, ihr, tablesInSubtree]
  | project child _ ih | aggregate child _ _ ih | sort child _ ih | limit child _ ih => exact ih

theorem scope_predicatePushdown (node : LogicalNode) :
    (predicatePushdown node).scope = node.scope := by
  induction node with
  | scan | indexScan => rfl
  | filter child predicate ih =>
    rw [predicatePushdown, LogicalNode.scope, ← ih]
    obtain h | ⟨l, r, c, hchild, h | h⟩ := pushFilter_cases (predicatePushdown child) predicate
    · rw [h, LogicalNode.scope]
    · rw [h, hchild]
      rfl
    · rw [h, hchild]
      rfl
  | join left right condition ihl ihr =>
    rw [predicatePushdown, LogicalNode.scope, ihl, ihr, LogicalNode.scope]
  | project child exprs ih => rw [predicatePushdown, LogicalNode.scope, ih, LogicalNode.scope]
  | aggregate child groupBy aggs ih =>
    rw [predicatePushdown, LogicalNode.scope, ih, LogicalNode.scope]
  | sort child _ ih | limit child _ ih => exact ih

/-- The side `side'` of a join stands for `side` in the rewritten plan. -/
structure StandsFor (side' side : LogicalNode) : Prop where
  scope : side'.scope = side.scope
  tables : tablesInSubtree side' = tablesInSubtree side

/-- What the pass does to a plan, from the rows of the plan. -/
structure Pushed (tables : Bytes → List (Bytes → Value)) (node : LogicalNode) : Prop where
  /-- A plan on which it is safe keeps its rows. -/
  keeps : ∀ rows, node.evaluate tables = some rows → PushSafe tables node →
    (predicatePushdown node).evaluate tables = some rows
  /-- On others the rewritten plan fails. -/
  safe : ∀ rows, node.evaluate tables = some rows →
    (predicatePushdown node).evaluate tables ≠ none → PushSafe tables node
  /-- The filters over a join that all move are put onto the rewritten sides. -/
  sides : ∀ l r c, joinUnder node = some (l, r, c) → ∃ l' r',
    predicatePushdown node = .join l' r' c ∧
    StandsFor l' l ∧ StandsFor r' r ∧ ∀ rows, node.evaluate tables = some rows →
      (PushSafe tables node → l'.evaluate tables = l.evaluate tables ∧
        r'.evaluate tables = r.evaluate tables) ∧
      (l'.evaluate tables ≠ none → r'.evaluate tables ≠ none → PushSafe tables node)
  /-- Nothing else becomes a join. -/
  others : joinUnder node = none → ∀ l r c, predicatePushdown node ≠ .join l r c

theorem StandsFor.predicatePushdown (node : LogicalNode) :
    StandsFor (predicatePushdown node) node :=
  ⟨scope_predicatePushdown node, tablesInSubtree_predicatePushdown node⟩

theorem StandsFor.filter {side' side : LogicalNode} (h : StandsFor side' side) :
    StandsFor (.filter side' predicate) (.filter side predicate) := ⟨h.scope, h.tables⟩

theorem StandsFor.evaluate_filter {side' side : LogicalNode} (h : StandsFor side' side)
    (hrows : side'.evaluate tables = side.evaluate tables) :
    (LogicalNode.filter side' predicate).evaluate tables =
      (LogicalNode.filter side predicate).evaluate tables := by
  rw [LogicalNode.evaluate, LogicalNode.evaluate, hrows, h.scope]

theorem StandsFor.evaluate_join {l' l r' r : LogicalNode} (hl : StandsFor l' l)
    (hr : StandsFor r' r)
    (hlrows : l'.evaluate tables = l.evaluate tables)
    (hrrows : r'.evaluate tables = r.evaluate tables) :
    (LogicalNode.join l' r' condition).evaluate tables =
      (LogicalNode.join l r condition).evaluate tables := by
  rw [LogicalNode.evaluate, LogicalNode.evaluate, hlrows, hrrows, hl.scope, hr.scope]

theorem evaluate_ne_none_of_join
    (h : (LogicalNode.join left right condition).evaluate tables ≠ none) :
    left.evaluate tables ≠ none ∧ right.evaluate tables ≠ none := by
  obtain ⟨rows, hrows⟩ := Option.ne_none_iff_exists'.mp h
  obtain ⟨leftRows, rightRows, hleft, hright, -⟩ := evaluate_join.mp hrows
  exact ⟨hleft ▸ nofun, hright ▸ nofun⟩

/-- A filter over the sides of a join moves in the plan as in the rewritten
plan. -/
theorem pushFilter_sides {l' r' : LogicalNode} (hl : StandsFor l' left) (hr : StandsFor r' right)
    (hchild : joinUnder child = some (left, right, condition)) (predicate : Expr) :
    joinUnder (.filter child predicate) = none ∧
        pushFilter (.join l' r' condition) predicate = .filter (.join l' r' condition) predicate ∨
      joinUnder (.filter child predicate) = some (.filter left predicate, right, condition) ∧
        pushFilter (.join l' r' condition) predicate = .join (.filter l' predicate) r' condition ∨
      joinUnder (.filter child predicate) = some (left, .filter right predicate, condition) ∧
        pushFilter (.join l' r' condition) predicate =
          .join l' (.filter r' predicate) condition := by
  rw [joinUnder, hchild, pushFilter, hl.tables, hr.tables]
  show (ite _ _ _ = _ ∧ _) ∨ (ite _ _ _ = _ ∧ _) ∨ ite _ _ _ = _ ∧ _
  split_ifs with hnil hleft hright
  · exact .inl ⟨rfl, rfl⟩
  · exact .inr (.inl ⟨rfl, rfl⟩)
  · exact .inr (.inr ⟨rfl, rfl⟩)
  · exact .inl ⟨rfl, rfl⟩

/-- A plan with a join under filters that move. -/
theorem pushed_of_sides {l r l' r' : LogicalNode} (hunder : joinUnder node = some (l, r, c))
    (hpush : predicatePushdown node = .join l' r' c) (hl : StandsFor l' l) (hr : StandsFor r' r)
    (hrows : ∀ rows, node.evaluate tables = some rows →
      (PushSafe tables node → l.evaluate tables ≠ none ∧ r.evaluate tables ≠ none ∧
        l'.evaluate tables = l.evaluate tables ∧ r'.evaluate tables = r.evaluate tables) ∧
      (l'.evaluate tables ≠ none → r'.evaluate tables ≠ none → PushSafe tables node)) :
    Pushed tables node where
  keeps rows h hsafe := by
    obtain ⟨hlsome, hrsome, hlrows, hrrows⟩ := (hrows rows h).1 hsafe
    rw [hpush, hl.evaluate_join hr hlrows hrrows]
    exact evaluate_joinUnder hunder h hlsome hrsome
  safe rows h hsome := by
    rw [hpush] at hsome
    obtain ⟨hlsome, hrsome⟩ := evaluate_ne_none_of_join hsome
    exact (hrows rows h).2 hlsome hrsome
  sides l₀ r₀ c₀ hunder₀ := by
    cases hunder.symm.trans hunder₀
    refine ⟨l', r', hpush, hl, hr, fun rows h => ⟨fun hsafe => ?_, (hrows rows h).2⟩⟩
    exact ((hrows rows h).1 hsafe).2.2
  others hnone := absurd (hunder.symm.trans hnone) nofun

theorem pushed_join (hl : Pushed tables left) (hr : Pushed tables right) :
    Pushed tables (.join left right condition) := by
  refine pushed_of_sides rfl rfl (.predicatePushdown left) (.predicatePushdown right) ?_
  intro rows h
  obtain ⟨leftRows, rightRows, hleft, hright, -⟩ := evaluate_join.mp h
  refine ⟨fun hsafe => ⟨hleft ▸ nofun, hright ▸ nofun, ?_, ?_⟩, fun hlsome hrsome => ⟨?_, ?_⟩⟩
  · rw [hl.keeps leftRows hleft hsafe.1, hleft]
  · rw [hr.keeps rightRows hright hsafe.2, hright]
  · exact hl.safe leftRows hleft hlsome
  · exact hr.safe rightRows hright hrsome

/-- A filter that stays where it is. -/
theorem pushed_filter_stays (hchild : Pushed tables child)
    (hunder : joinUnder (.filter child predicate) = none)
    (hpush : predicatePushdown (.filter child predicate) =
      .filter (predicatePushdown child) predicate) : Pushed tables (.filter child predicate) where
  keeps rows h hsafe := by
    obtain ⟨rows₀, hrows₀, -⟩ := evaluate_filter.mp h
    rw [hpush, (StandsFor.predicatePushdown child).evaluate_filter, h]
    rw [hchild.keeps rows₀ hrows₀ hsafe.1, hrows₀]
  safe rows h hsome := by
    obtain ⟨rows₀, hrows₀, -⟩ := evaluate_filter.mp h
    rw [hpush] at hsome
    refine ⟨hchild.safe rows₀ hrows₀ (evaluate_ne_none_of_filter hsome), fun l r c hsome => ?_⟩
    exact absurd (hunder.symm.trans hsome) nofun
  sides l r c hsome := absurd (hunder.symm.trans hsome) nofun
  others _ l r c := by
    rw [hpush]
    nofun

theorem pushed_filter (hchild : Pushed tables child) : Pushed tables (.filter child predicate) := by
  cases hunder : joinUnder child with
  | none =>
    have hpush : predicatePushdown (.filter child predicate) =
        .filter (predicatePushdown child) predicate := by
      rw [predicatePushdown]
      obtain h | ⟨l, r, c, hjoin, -⟩ := pushFilter_cases (predicatePushdown child) predicate
      · exact h
      · exact absurd hjoin (hchild.others hunder l r c)
    exact pushed_filter_stays hchild (by rw [joinUnder, hunder]; rfl) hpush
  | some sides =>
    obtain ⟨l, r, c⟩ := sides
    obtain ⟨l', r', hpush, hl, hr, hrows⟩ := hchild.sides l r c hunder
    obtain ⟨hunder', hpush'⟩ | ⟨hunder', hpush'⟩ | ⟨hunder', hpush'⟩ :=
      pushFilter_sides hl hr hunder predicate
    · exact pushed_filter_stays hchild hunder' (by rw [predicatePushdown, hpush, hpush'])
    · refine pushed_of_sides hunder' (by rw [predicatePushdown, hpush, hpush']) hl.filter hr ?_
      intro rows h
      obtain ⟨rows₀, hrows₀, -⟩ := evaluate_filter.mp h
      obtain ⟨hsame, hsafe⟩ := hrows rows₀ hrows₀
      refine ⟨fun hnode => ?_, fun hlsome hrsome => ?_⟩
      · obtain ⟨hlsame, hrsame⟩ := hsame hnode.1
        obtain ⟨hlsome, hrsome⟩ := hnode.2 _ _ _ hunder'
        exact ⟨hlsome, hrsome, hl.evaluate_filter hlsame, hrsame⟩
      · have hchildSafe := hsafe (evaluate_ne_none_of_filter hlsome) hrsome
        obtain ⟨hlsame, hrsame⟩ := hsame hchildSafe
        refine ⟨hchildSafe, fun l₀ r₀ c₀ hunder₀ => ?_⟩
        cases hunder'.symm.trans hunder₀
        exact ⟨hl.evaluate_filter hlsame ▸ hlsome, hrsame ▸ hrsome⟩
    · refine pushed_of_sides hunder' (by rw [predicatePushdown, hpush, hpush']) hl hr.filter ?_
      intro rows h
      obtain ⟨rows₀, hrows₀, -⟩ := evaluate_filter.mp h
      obtain ⟨hsame, hsafe⟩ := hrows rows₀ hrows₀
      refine ⟨fun hnode => ?_, fun hlsome hrsome => ?_⟩
      · obtain ⟨hlsame, hrsame⟩ := hsame hnode.1
        obtain ⟨hlsome, hrsome⟩ := hnode.2 _ _ _ hunder'
        exact ⟨hlsome, hrsome, hlsame, hr.evaluate_filter hrsame⟩
      · have hchildSafe := hsafe hlsome (evaluate_ne_none_of_filter hrsome)
        obtain ⟨hlsame, hrsame⟩ := hsame hchildSafe
        refine ⟨hchildSafe, fun l₀ r₀ c₀ hunder₀ => ?_⟩
        cases hunder'.symm.trans hunder₀
        exact ⟨hlsame ▸ hlsome, hr.evaluate_filter hrsame ▸ hrsome⟩

theorem pushed_project {exprs : List Expr} (hchild : Pushed tables child) :
    Pushed tables (.project child exprs) where
  keeps rows h hsafe := by
    obtain ⟨rows₀, hrows₀, h'⟩ := Option.bind_eq_some_iff.mp h
    rw [predicatePushdown, LogicalNode.evaluate, hchild.keeps rows₀ hrows₀ hsafe,
      scope_predicatePushdown]
    exact h'
  safe rows h hsome := by
    obtain ⟨rows₀, hrows₀, -⟩ := Option.bind_eq_some_iff.mp h
    refine hchild.safe rows₀ hrows₀ fun hnone => hsome ?_
    rw [predicatePushdown, LogicalNode.evaluate, hnone]
    rfl
  sides l r c hunder := nomatch hunder
  others _ l r c := nofun

theorem pushed (tables : Bytes → List (Bytes → Value)) (node : LogicalNode) :
    Pushed tables node := by
  induction node with
  | scan table columns => exact ⟨fun _ h _ => h, fun _ _ _ => trivial, nofun, fun _ _ _ _ => nofun⟩
  | filter child predicate ih => exact pushed_filter ih
  | join left right condition ihl ihr => exact pushed_join ihl ihr
  | project child exprs ih => exact pushed_project ih
  | _ => exact ⟨nofun, nofun, nofun, fun _ _ _ _ => nofun⟩

/-! ### The result -/

/-- A plan that does not fail keeps its rows if and only if no filter fails
on the rows of the side that it moves to. -/
theorem evaluate_predicatePushdown {tables : Bytes → List (Bytes → Value)} {node : LogicalNode}
    {rows : List Row} (h : node.evaluate tables = some rows) :
    (predicatePushdown node).evaluate tables = some rows ↔ PushSafe tables node :=
  ⟨fun hrows => (pushed tables node).safe rows h (hrows ▸ nofun),
    (pushed tables node).keeps rows h⟩

/-- Each table has one row, with 1 in all columns. -/
def oneEach (_ : Bytes) : List (Bytes → Value) := [fun _ => { intVal := 1 }]

/-- A filter over the join of `users (id)` and `orders (user_id)`. -/
def overOrders (predicate : Expr) : LogicalNode :=
  .filter (.join (.scan (ascii "users") [{ name := ascii "id", type := .typeInt }])
    (.scan (ascii "orders") [{ name := ascii "user_id", type := .typeInt }]) none) predicate

/-- `users.id > 0` moves and keeps the row. -/
theorem evaluate_predicatePushdown_users :
    (predicatePushdown (overOrders
      (.binaryExpr (.columnRef (ascii "users") (ascii "id")) .gt (integer "0")))).evaluate oneEach =
        some [[{ intVal := 1 }, { intVal := 1 }]] := by
  have hrows : (overOrders (.binaryExpr (.columnRef (ascii "users") (ascii "id")) .gt
      (integer "0"))).evaluate oneEach = some [[{ intVal := 1 }, { intVal := 1 }]] := by
    decide +kernel
  refine (evaluate_predicatePushdown hrows).mpr ⟨⟨trivial, trivial⟩, fun l r c hunder => ?_⟩
  cases hunder
  exact ⟨by decide +kernel, nofun⟩

/-- `users.id = user_id` moves to the side of `users`, where `user_id` names
nothing. -/
theorem evaluate_predicatePushdown_unqualified :
    (overOrders (.binaryExpr (.columnRef (ascii "users") (ascii "id")) .eq
        (.columnRef [] (ascii "user_id")))).evaluate oneEach =
      some [[{ intVal := 1 }, { intVal := 1 }]] ∧
    (predicatePushdown (overOrders (.binaryExpr (.columnRef (ascii "users") (ascii "id")) .eq
        (.columnRef [] (ascii "user_id"))))).evaluate oneEach = none := by
  decide +kernel

end MySQLight.Planner
