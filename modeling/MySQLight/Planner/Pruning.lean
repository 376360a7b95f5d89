import MySQLight.Planner.Names

/-!
Column pruning keeps what a plan delivers.

The names that occur anywhere in a plan are collected in one set, and each
scan keeps the columns whose names are in it. So the rows of the pruned plan
agree with those of the plan under all these names, node by node from the
scans up to the select list, which evaluates to the same values.
-/

namespace MySQLight.Planner

open MySQLight.Data MySQLight.Schema MySQLight.Effect MySQLight.Sql

/-! ### Operators over rows that agree -/

variable {names : List Bytes} {columns columns' : List ColumnDef} {o o' : Cursor} {row row' : Row}

/-- The same error, or rows that agree one by one. -/
def Deliver (names : List Bytes) (columns columns' : List ColumnDef) (o o' : Cursor) : Prop :=
  Alike Eq (Stream.Rel (fun _ => True) Eq (Agrees names columns columns')) o o'

theorem holds_of_agrees (h : Agrees names columns columns' row row') {predicate : Expr}
    (hnames : collectColumnNames predicate ⊆ names) :
    holds predicate columns' row' = holds predicate columns row := by
  rw [holds, holds, evalExpr_of_agrees h predicate hnames]

theorem Deliver.filter (h : Deliver names columns columns' o o') {predicate : Expr}
    (hnames : collectColumnNames predicate ⊆ names) :
    Deliver names columns columns' (o.filter predicate columns) (o'.filter predicate columns') := by
  refine h.bind fun v v' hv => .ok (hv.filterMap fun row row' hrow => ?_)
  rw [keepRow, keepRow, holds_of_agrees hrow hnames]
  cases holds predicate columns row with
  | error e => exact .error rfl
  | ok b =>
    cases b with
    | false => exact .ok .none
    | true => exact .ok (.some hrow)

theorem alike_combine {condition : Option Expr} {columns₂ columns₂' : List ColumnDef}
    {row₂ row₂' : Row} (h : Agrees names columns columns' row row')
    (h₂ : Agrees names columns₂ columns₂' row₂ row₂')
    (hnames : condition.elim [] collectColumnNames ⊆ names) :
    Alike Eq (Option.Rel (Agrees names (columns ++ columns₂) (columns' ++ columns₂')))
      (combine condition (columns ++ columns₂) row row₂)
      (combine condition (columns' ++ columns₂') row' row₂') := by
  have hrow := h.append h₂
  cases condition with
  | none => exact .ok (.some hrow)
  | some predicate =>
    rw [combine, combine, holds_of_agrees hrow hnames]
    cases holds predicate (columns ++ columns₂) (row ++ row₂) with
    | error e => exact .error rfl
    | ok b =>
      cases b with
      | false => exact .ok .none
      | true => exact .ok (.some hrow)

theorem Deliver.join {columns₂ columns₂' : List ColumnDef} {o₂ o₂' : Cursor}
    (h : Deliver names columns columns' o o') (h₂ : Deliver names columns₂ columns₂' o₂ o₂')
    {condition : Option Expr} (hnames : condition.elim [] collectColumnNames ⊆ names) :
    Deliver names (columns ++ columns₂) (columns' ++ columns₂')
      (o.join o₂ condition (columns ++ columns₂))
        (o'.join o₂' condition (columns' ++ columns₂')) := by
  refine h.bind fun v v' hv => h₂.bind fun w w' hw => ?_
  have hpairs : (v.flatMap fun row => w.filterMap (combine condition (columns ++ columns₂) row)).Rel
      (fun _ => True) Eq (Agrees names (columns ++ columns₂) (columns' ++ columns₂'))
      (v'.flatMap fun row => w'.filterMap (combine condition (columns' ++ columns₂') row)) :=
    hv.flatMap fun row row' hrow => hw.filterMap fun row₂ row₂' hrow₂ =>
      alike_combine hrow hrow₂ hnames
  cases v with
  | done =>
    obtain rfl := hv
    exact .ok hpairs
  | fail e =>
    obtain ⟨e', rfl, he⟩ := hv
    exact .error he
  | emit a rest =>
    obtain ⟨b, rest', rfl, -, -⟩ := hv
    exact .ok hpairs
  | call o => exact o.elim

theorem mapM_congr {ε α β : Type} {f g : α → Except ε β} {as : List α}
    (h : ∀ a ∈ as, f a = g a) : as.mapM f = as.mapM g := by
  induction as with
  | nil => rfl
  | cons a as ih =>
    obtain ⟨ha, has⟩ := List.forall_mem_cons.mp h
    rw [List.mapM_cons, List.mapM_cons, ha, ih has]

variable {exprs groupBy : List Expr} {node : LogicalNode}

theorem evalAll_of_agrees (h : Agrees names columns columns' row row')
    (hnames : exprs.flatMap collectColumnNames ⊆ names) :
    (exprs.mapM fun expr => (evalExpr expr row' columns').mapError ExecErr.eval) =
      exprs.mapM fun expr => (evalExpr expr row columns).mapError ExecErr.eval := by
  refine mapM_congr fun expr hexpr => ?_
  rw [evalExpr_of_agrees h expr fun name hname =>
    hnames (List.mem_flatMap.mpr ⟨expr, hexpr, hname⟩)]

theorem Deliver.project (h : Deliver names columns columns' o o')
    (hnames : exprs.flatMap collectColumnNames ⊆ names) :
    o.project exprs columns = o'.project exprs columns' := by
  refine (h.bind fun v v' hv => Alike.ok (hv.filterMap fun row row' hrow => ?_).eq).eq
  rw [projectRow, projectRow, evalAll_of_agrees hrow hnames]
  cases exprs.mapM fun expr => (evalExpr expr row columns).mapError ExecErr.eval with
  | error e => exact .error rfl
  | ok values => exact .ok (.some rfl)

/-! ### Groups -/

theorem groupKey_of_agrees (h : Agrees names columns columns' row row')
    (hnames : groupBy.flatMap collectColumnNames ⊆ names) :
    groupKey groupBy columns' row' = groupKey groupBy columns row := by
  rw [groupKey, groupKey, evalAll_of_agrees h hnames]

theorem updateAggState_of_agrees (h : Agrees names columns columns' row row') {expr : Expr}
    (hnames : collectColumnNames expr ⊆ names) (state : AggState) :
    updateAggState columns' row' state expr = updateAggState columns row state expr := by
  cases expr with
  | funcCall name args star =>
    have hargument : argument args columns' row' = argument args columns row := by
      cases args with
      | nil => rfl
      | cons arg args =>
        rw [collectColumnNames, collectArgNames, List.append_subset] at hnames
        rw [argument, argument, evalExpr_of_agrees h arg hnames.1]
    rw [updateAggState, updateAggState, hargument]
  | _ => rfl

/-- Groups with the same key and the same states, and with first rows that
agree. -/
def SameGroup (names : List Bytes) (columns columns' : List ColumnDef)
    (g g' : Bytes × List AggState × Row) : Prop :=
  g'.1 = g.1 ∧ g'.2.1 = g.2.1 ∧ Agrees names columns columns' g.2.2 g'.2.2

theorem alike_addToGroups (h : Agrees names columns columns' row row')
    (hnames : exprs.flatMap collectColumnNames ⊆ names) (key : Bytes) {groups groups' : Groups}
    (hgroups : List.Forall₂ (SameGroup names columns columns') groups groups') :
    Alike Eq (List.Forall₂ (SameGroup names columns columns'))
      (addToGroups exprs columns row key groups) (addToGroups exprs columns' row' key groups') := by
  have hupdate : ∀ expr ∈ exprs, ∀ state,
      updateAggState columns' row' state expr = updateAggState columns row state expr :=
    fun expr hexpr => updateAggState_of_agrees h fun name hname =>
      hnames (List.mem_flatMap.mpr ⟨expr, hexpr, hname⟩)
  induction hgroups with
  | nil =>
    rw [addToGroups, addToGroups, mapM_congr fun expr hexpr => hupdate expr hexpr {}]
    cases exprs.mapM fun expr => updateAggState columns row {} expr with
    | error e => exact .error rfl
    | ok states => exact .ok (.cons ⟨rfl, rfl, h⟩ .nil)
  | @cons g g' groups groups' hgroup hrest ih =>
    obtain ⟨hkey, hstates, hfirst⟩ := hgroup
    rw [addToGroups, addToGroups, hkey, hstates]
    split_ifs
    · rw [mapM_congr fun p hp => hupdate p.2 (List.of_mem_zip hp).2 p.1]
      cases (g.2.1.zip exprs).mapM fun p => updateAggState columns row p.1 p.2 with
      | error e => exact .error rfl
      | ok states => exact .ok (.cons ⟨rfl, rfl, hfirst⟩ hrest)
    · exact ih.bind fun _ _ hrest => .ok (.cons ⟨hkey, hstates, hfirst⟩ hrest)

theorem groupRow_of_agrees (h : Agrees names columns columns' row row')
    (hnames : exprs.flatMap collectColumnNames ⊆ names) (states : List AggState) :
    groupRow exprs columns' states row' = groupRow exprs columns states row := by
  refine mapM_congr fun p hp => ?_
  have heval := evalExpr_of_agrees h p.2 fun name hname =>
    hnames (List.mem_flatMap.mpr ⟨p.2, (List.of_mem_zip hp).2, hname⟩)
  split
  · rfl
  · rw [heval]

theorem Deliver.aggregate (h : Deliver names columns columns' o o')
    (hgroupBy : groupBy.flatMap collectColumnNames ⊆ names)
    (hexprs : exprs.flatMap collectColumnNames ⊆ names) :
    o.aggregate groupBy exprs columns = o'.aggregate groupBy exprs columns' := by
  refine (h.bind fun v v' hv => ?_).eq
  refine (hv.collect (Q := List.Forall₂ (SameGroup names columns columns'))
    (fun groups groups' row row' hgroups hrow => ?_) .nil).bind fun groups groups' hgroups =>
      .of_eq ?_
  · rw [groupKey_of_agrees hrow hgroupBy]
    cases groupKey groupBy columns row with
    | error e => exact .error rfl
    | ok key => exact alike_addToGroups hrow hexprs key hgroups
  · have hresults : (groups'.mapM fun group => groupRow exprs columns' group.2.1 group.2.2) =
        groups.mapM fun group => groupRow exprs columns group.2.1 group.2.2 := by
      induction hgroups with
      | nil => rfl
      | cons hgroup _ ih =>
        obtain ⟨-, hstates, hfirst⟩ := hgroup
        rw [List.mapM_cons, List.mapM_cons, ih, hstates, groupRow_of_agrees hfirst hexprs]
    rw [hresults]

/-! ### Plans -/

/-- What is under the select list of a plan: scans of whole tables, filters
and joins. -/
inductive Sources (catalog : Catalog) : LogicalNode → Prop
  | scan (table : Bytes) : Sources catalog (.scan table (tableColumns catalog table))
  | filter {child : LogicalNode} (predicate : Expr) (h : Sources catalog child) :
      Sources catalog (.filter child predicate)
  | join {left right : LogicalNode} (condition : Option Expr) (hleft : Sources catalog left)
      (hright : Sources catalog right) : Sources catalog (.join left right condition)

variable {catalog : Catalog}

theorem tableColumns_of_getTable {table : Bytes} {d : TableDef}
    (h : catalog.getTable table = .ok d) : tableColumns catalog table = d.columns := by
  rw [tableColumns, h]

theorem sources_planJoins {joins : List JoinClause} {current : LogicalNode}
    (hcurrent : Sources catalog current) (h : planJoins catalog current joins = .ok node) :
    Sources catalog node := by
  induction joins generalizing current with
  | nil =>
    cases h
    exact hcurrent
  | cons join joins ih =>
    rw [planJoins] at h
    cases hget : catalog.getTable join.table with
    | error e =>
      rw [hget] at h
      cases h
    | ok d =>
      rw [hget] at h
      refine ih (.join join.on hcurrent ?_) h
      rw [← tableColumns_of_getTable hget]
      exact .scan join.table

/-- A plan is the output of a statement over its sources. -/
theorem sources_of_planSelect {stmt : SelectStmt} (h : planSelect catalog stmt = .ok node) :
    ∃ sources, Sources catalog sources ∧ node = planOutput stmt sources := by
  rw [planSelect] at h
  by_cases hfrom : stmt.from = []
  · rw [if_pos hfrom] at h
    cases h
  rw [if_neg hfrom] at h
  cases hget : catalog.getTable stmt.from with
  | error e =>
    rw [hget] at h
    cases h
  | ok d =>
    have hscan : Sources catalog (.scan stmt.from d.columns) := by
      rw [← tableColumns_of_getTable hget]
      exact .scan stmt.from
    have hcurrent : Sources catalog (planFrom stmt d) := by
      rw [planFrom]
      cases stmt.where with
      | none => exact hscan
      | some predicate => exact .filter predicate hscan
    rw [hget] at h
    cases hjoins : planJoins catalog (planFrom stmt d) stmt.joins with
    | error e => simp [Except.mapError, hjoins, bind, Except.bind] at h
    | ok sources =>
      refine ⟨sources, sources_planJoins hcurrent hjoins, ?_⟩
      simpa [Except.mapError, hjoins, bind, Except.bind, pure, Except.pure] using h.symm

/-- The pruned sources deliver rows that agree with those of the sources. -/
theorem deliver_pruneScans (tables : Contents catalog) (h : Sources catalog node)
    (hnames : gatherReferencedColumns node ⊆ names) :
    Deliver names node.columns (pruneScans names node).columns (node.opened tables.scan)
      ((pruneScans names node).opened tables.scan) := by
  induction h with
  | scan table =>
    refine .ok (.ofList ?_)
    rw [Contents.scanned, Contents.scanned, List.forall₂_map_left_iff, List.forall₂_map_right_iff,
      List.forall₂_same]
    intro row hrow
    have hlength := tables.parallel table row hrow
    rw [restrict_self hlength]
    exact agrees_restrict_kept hlength
  | @filter child predicate _ ih =>
    rw [gatherReferencedColumns, List.append_subset] at hnames
    exact (ih hnames.2).filter hnames.1
  | @join left right condition _ _ ihleft ihright =>
    rw [gatherReferencedColumns, List.append_subset, List.append_subset] at hnames
    exact (ihleft hnames.1.2).join (ihright hnames.2) hnames.1.1

theorem opened_pruneScans_project (tables : Contents catalog) {sources : LogicalNode}
    (h : Sources catalog sources)
    (hnames : gatherReferencedColumns (.project sources exprs) ⊆ names)
    (hstar : ascii "*" ∉ gatherReferencedColumns (.project sources exprs)) :
    (pruneScans names (.project sources exprs)).opened tables.scan =
      (LogicalNode.project sources exprs).opened tables.scan := by
  rw [gatherReferencedColumns, List.append_subset] at hnames
  have hexprs : isSelectStar exprs = false := by
    rw [Bool.eq_false_iff]
    intro hselect
    rw [isSelectStar.eq_def] at hselect
    split at hselect
    · exact hstar (List.mem_append_left _ List.mem_cons_self)
    · cases hselect
  rw [pruneScans, LogicalNode.opened, LogicalNode.opened, hexprs]
  exact ((deliver_pruneScans tables h hnames.2).project hnames.1).symm

theorem opened_pruneScans_aggregate (tables : Contents catalog) {sources : LogicalNode}
    {aggs : List Expr} (h : Sources catalog sources)
    (hnames : gatherReferencedColumns (.aggregate sources groupBy aggs) ⊆ names) :
    (pruneScans names (.aggregate sources groupBy aggs)).opened tables.scan =
      (LogicalNode.aggregate sources groupBy aggs).opened tables.scan := by
  rw [gatherReferencedColumns, List.append_subset, List.append_subset] at hnames
  exact ((deliver_pruneScans tables h hnames.2).aggregate hnames.1.1 hnames.1.2).symm

/-- Pruning the scans of a plan does not change what it delivers. -/
theorem opened_columnPruning {stmt : SelectStmt} {node : LogicalNode}
    (hplan : planSelect catalog stmt = .ok node) (hhaving : stmt.having = none)
    (horderBy : stmt.orderBy = []) (tables : Contents catalog) :
    (columnPruning node).opened tables.scan = node.opened tables.scan := by
  obtain ⟨sources, hsources, rfl⟩ := sources_of_planSelect hplan
  obtain ⟨shaped, hshaped, hlimit⟩ : ∃ shaped : LogicalNode,
      (∀ names, gatherReferencedColumns shaped ⊆ names →
        ascii "*" ∉ gatherReferencedColumns shaped →
        (pruneScans names shaped).opened tables.scan = shaped.opened tables.scan) ∧
      planOutput stmt sources = stmt.limit.elim shaped fun n => .limit shaped n := by
    rw [planOutput, hhaving, horderBy, List.isEmpty_nil]
    simp only [if_true]
    split_ifs
    · exact ⟨_, fun _ hnames _ => opened_pruneScans_aggregate tables hsources hnames, rfl⟩
    · exact ⟨_, fun _ hnames hstar => opened_pruneScans_project tables hsources hnames hstar, rfl⟩
  rw [columnPruning, hlimit]
  cases stmt.limit with
  | none =>
    split_ifs with hstar
    · rfl
    · exact hshaped _ (List.Subset.refl _) hstar
  | some n =>
    split_ifs with hstar
    · rfl
    · exact congrArg (Cursor.limit · n) (hshaped _ (List.Subset.refl _) hstar)

/-- A table of three columns. -/
def threeColumns : Catalog :=
  ((World.new plainEnv).step 1 (.createTableStmt
    { table := ascii "t", columns := [idColumn, intColumn "a", intColumn "b"] })).db.catalog

/-- `SELECT a FROM t JOIN t WHERE a > 1`: of both scans `b` goes out. -/
def unusedColumn : SelectStmt where
  columns := [.columnRef [] (ascii "a")]
  «from» := ascii "t"
  joins := [⟨ascii "t", [], none⟩]
  «where» := some (.binaryExpr (.columnRef [] (ascii "a")) .gt (integer "1"))

theorem opened_columnPruning_unused :
    ∃ node, planSelect threeColumns unusedColumn = .ok node ∧
      ∀ tables : Contents threeColumns,
        (columnPruning node).opened tables.scan = node.opened tables.scan := by
  have hplan : ∃ node, planSelect threeColumns unusedColumn = .ok node := ⟨_, rfl⟩
  obtain ⟨node, hnode⟩ := hplan
  exact ⟨node, hnode, opened_columnPruning hnode rfl rfl⟩

end MySQLight.Planner
