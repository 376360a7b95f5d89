import MySQLight.Effect.Delivery
import MySQLight.Executor.Execute

/-!
What a `SELECT` delivers, as a function of the catalog and the trees.

The operators of the executor open their inputs, take rows and call the
database in between. None of these calls changes a table, so each operator
comes down to a function: what it delivers is computed from what its inputs
deliver. The only thing that can come in between is a lock that is not
granted, and then the statement does not return.
-/

namespace MySQLight.Sql

open MySQLight.Data MySQLight.Schema MySQLight.Effect MySQLight.Txn

/-- What `Open` of an operator returns, with what `Next` delivers then. -/
abbrev Cursor : Type := Except ExecErr (Delivery ExecErr Row)

/-- `Filter.Next`, for one row of its input. -/
def keepRow (predicate : Expr) (columns : List ColumnDef) (row : Row) :
    Except ExecErr (Option Row) := do
  return if ← holds predicate columns row then some row else none

/-- `Project.Next`, for one row of its input. -/
def projectRow (exprs : List Expr) (columns : List ColumnDef) (row : Row) :
    Except ExecErr (Option Row) := do
  let values ← exprs.mapM fun expr => (evalExpr expr row columns).mapError .eval
  return some (values.map toValue)

namespace Cursor

/-- `collectRows`. -/
def rows (o : Cursor) : Except ExecErr (List Row) := do (← o).drain

def filter (input : Cursor) (predicate : Expr) (columns : List ColumnDef) : Cursor := do
  return (← input).filterMap (keepRow predicate columns)

/-- Each row of the left side with all rows of the right side. The first
row of the left side is taken when the join is opened. -/
def join (left right : Cursor) (condition : Option Expr) (columns : List ColumnDef) : Cursor := do
  let leftRows ← left
  let rightRows ← right
  match leftRows with
  | .fail e => throw e
  | leftRows => return leftRows.flatMap fun leftRow =>
    rightRows.filterMap (combine condition columns leftRow)

def project (input : Cursor) (exprs : List Expr) (columns : List ColumnDef) : Cursor := do
  return (← input).filterMap (projectRow exprs columns)

def sort (input : Cursor) (orderBy : List OrderClause) (columns : List ColumnDef) : Cursor := do
  return .ofList ((← input.rows).mergeSort fun a b => !sortLess columns b a orderBy)

def limit (input : Cursor) (n : Int) : Cursor := do return (← input).take n.toNat

def aggregate (input : Cursor) (groupBy exprs : List Expr) (columns : List ColumnDef) :
    Cursor := do
  let groups ← (← input).collect (fun groups row => do
    addToGroups exprs columns row (← groupKey groupBy columns row) groups) []
  let results ← groups.mapM fun group => groupRow exprs columns group.2.1 group.2.2
  return .ofList results

/-- The sort, if there is an `ORDER BY`. -/
def sorted (stmt : SelectStmt) (columns : List ColumnDef) (o : Cursor) : Cursor :=
  if stmt.orderBy.isEmpty then o else o.sort stmt.orderBy columns

/-- The projection, except for `SELECT *`. -/
def projected (stmt : SelectStmt) (columns : List ColumnDef) (o : Cursor) : Cursor :=
  if isSelectStar stmt.columns then o else o.project stmt.columns columns

/-- The operators over the joins. -/
def overJoins (stmt : SelectStmt) (o : Cursor) (columns : List ColumnDef) : Cursor :=
  let filtered := stmt.where.elim o fun predicate => o.filter predicate columns
  let shaped :=
    if !stmt.groupBy.isEmpty || hasAggregates stmt.columns then
      filtered.aggregate stmt.groupBy stmt.columns columns
    else projected stmt columns (sorted stmt columns filtered)
  stmt.limit.elim shaped fun n => shaped.limit n

/-- What a consumer sees who opens the operator and takes its rows. -/
def flatten : Cursor → Delivery ExecErr Row
  | .error e => .fail e
  | .ok v => v

variable (o : Cursor)

theorem rows_eq_drain : o.rows = o.flatten.drain := by
  cases o <;> rfl

theorem flatten_filter (predicate : Expr) (columns : List ColumnDef) :
    (o.filter predicate columns).flatten = o.flatten.filterMap (keepRow predicate columns) := by
  cases o <;> rfl

theorem flatten_join (right : Delivery ExecErr Row) (condition : Option Expr)
    (columns : List ColumnDef) :
    (o.join (.ok right) condition columns).flatten = o.flatten.flatMap fun leftRow =>
      right.filterMap (combine condition columns leftRow) := by
  match o with
  | .error e => rfl
  | .ok .done => rfl
  | .ok (.fail e) => rfl
  | .ok (.emit row rest) => rfl
  | .ok (.call o _) => exact o.elim

variable {o}

theorem eq_of_not_fails (h : ¬ o.flatten.Fails) : ∃ rows, o = .ok (.ofList rows) := by
  cases o with
  | error e => exact absurd trivial h
  | ok v => exact ⟨v.elements, congrArg Except.ok (Stream.eq_ofList_of_not_fails h)⟩

end Cursor

namespace Database

/-- The rows of a table in key order. -/
def scan (db : Database) (d : TableDef) : Cursor :=
  .ok ((Stream.ofList ((db.trees d.rootPageID).entries.map (·.2))).filterMap fun value =>
    ((decodeRow value d.columns).mapError .row).map some)

/-- The loop over the joins. -/
def joinTables (db : Database) (o : Cursor) (columns : List ColumnDef) :
    List JoinClause → Except ExecErr (Cursor × List ColumnDef)
  | [] => .ok (o, columns)
  | join :: joins => do
      let rightDef ← (db.catalog.getTable join.table).mapError (.joinedTableNotFound join.table)
      db.joinTables (o.join (db.scan rightDef) join.on (columns ++ rightDef.columns))
        (columns ++ rightDef.columns) joins

/-- What a `SELECT` delivers. -/
def select (db : Database) (stmt : SelectStmt) : Cursor := do
  let d ← (db.catalog.getTable stmt.from).mapError (.tableNotFound stmt.from)
  let (o, columns) ← db.joinTables (db.scan d) d.columns stmt.joins
  Cursor.overJoins stmt o columns

theorem select_of_getTable {db : Database} {stmt : SelectStmt} {d : TableDef}
    (hd : db.catalog.getTable stmt.from = .ok d) :
    db.select stmt = db.joinTables (db.scan d) d.columns stmt.joins >>= fun r =>
      Cursor.overJoins stmt r.1 r.2 := by
  rw [select, hd]
  rfl

/-- The catalog and the trees stay. -/
def Unchanged (db db' : Database) : Prop := db'.catalog = db.catalog ∧ db'.trees = db.trees

instance : Std.Refl Unchanged := ⟨fun _ => ⟨rfl, rfl⟩⟩

instance : IsTrans Database Unchanged :=
  ⟨fun _ _ _ h h' => ⟨h'.1.trans h.1, h'.2.trans h.2⟩⟩

theorem Unchanged.scan {db db' : Database} (h : Unchanged db db') (d : TableDef) :
    db'.scan d = db.scan d := by
  rw [Database.scan, Database.scan, h.2]

theorem Unchanged.joinTables {db db' : Database} (h : Unchanged db db') (o : Cursor)
    (columns : List ColumnDef) (joins : List JoinClause) :
    db'.joinTables o columns joins = db.joinTables o columns joins := by
  induction joins generalizing o columns with
  | nil => rfl
  | cons join joins ih => simp only [Database.joinTables, h.1, h.scan, ih]

/-- The database, which accepts every call. -/
noncomputable abbrev total : Prog.Ideal DbI Database := checked (fun _ _ => True) fun _ _ => True

end Database

open Database

section Definitions

variable (g : Prog.Ideal DbI Database) (R : Database → Database → Prop)

/-- The call waits for a lock, which it does in a transaction only. -/
def Waits (s : Session) (e : ExecErr) : Prop := e = .blocked ∧ s.currentTxn ≠ none

/-- The stream of rows delivers what is expected, unless it waits for a
lock. -/
abbrev DeliversRows (s : Session) (rows : Rows) (v : Delivery ExecErr Row) (db : Database) : Prop :=
  rows.Delivers g R (Waits s) v db

/-- Whenever it is called from now on, the procedure returns what is
expected, unless it waits for a lock. -/
def Yields {α : Type} (s : Session) (x : Exec α) (expected : Except ExecErr α) (db : Database) :
    Prop :=
  x.Returns g R (fun a _ => expected = .ok a) (fun e => Waits s e ∨ expected = .error e) s db

/-- Whenever it is opened from now on, the operator delivers what is
expected. -/
def Reads (s : Session) (op : Operator) (o : Cursor) (db : Database) : Prop :=
  op.Returns g R (fun rows db' => ∃ v, o = .ok v ∧ DeliversRows g R s rows v db')
    (fun e => Waits s e ∨ o = .error e) s db

/-- From now on the database gives the definitions of the tables it has, and
their rows can be read. -/
def Serves (s : Session) (db : Database) : Prop :=
  ∀ name db', R db db' → (g (.getTable name) db').Holds fun a =>
    R db' a.2 ∧ a.1 = db'.catalog.getTable name ∧
      ∀ d, a.1 = .ok d → Reads g R s (tableScan name d) (db'.scan d) a.2

end Definitions

section Operators

variable {g : Prog.Ideal DbI Database} {R : Database → Database → Prop} {s : Session}
  {db db' : Database} {op left right : Operator} {o o₁ o₂ : Cursor}

/-! ### Calls of the database -/

/-- A lock is granted or waited for. -/
theorem returns_acquire {table : Bytes} {mode : LockMode} {P : Database → Prop}
    (hnone : s.currentTxn = none → P db)
    (hcall : ∀ txnID db', s.currentTxn = some txnID → R db db' →
      (g (.acquire txnID table mode) db').Holds fun a => R db' a.2 ∧ (a.1 = true → P a.2)) :
    (acquire table mode).Returns g R (fun _ db' => P db') (Waits s) s db := by
  refine .get_bind ?_
  cases htxn : s.currentTxn with
  | none => exact .pure (hnone htxn)
  | some txnID =>
    refine .call_bind fun db' hdb => ?_
    refine (hcall txnID db' htxn hdb).imp ?_
    rintro ⟨granted, db''⟩ ⟨hdb', hP⟩
    refine ⟨hdb', ?_⟩
    cases granted with
    | true => exact .pure (hP rfl)
    | false => exact .throw ⟨rfl, by simp [htxn]⟩

/-- The rows of a table, once the lock is there. -/
theorem reads_tableScan {table : Bytes} {d : TableDef} {P : Database → Prop}
    (hacquire : (acquire table .lockShared).Returns g R (fun _ db' => P db') (Waits s) s db)
    (hscan : ∀ db₁ db₂, P db₁ → R db₁ db₂ → (g (.scan d) db₂).Holds fun a =>
      R db₂ a.2 ∧ a.1 = (db.trees d.rootPageID).entries.map (·.2)) :
    Reads g R s (tableScan table d) (db.scan d) db := by
  rw [Reads, tableScan]
  refine .bind (Proc.Returns.imp (Q := fun _ db₁ => P db₁) ?_ (fun _ => .inl) hacquire)
  intro _ db₁ hdb₁
  refine .call_bind fun db₂ hdb₂ => ?_
  refine (hscan db₁ db₂ hdb₁ hdb₂).imp ?_
  rintro ⟨values, db₃⟩ ⟨hdb₃, hvalues⟩
  refine ⟨hdb₃, .pure ⟨_, rfl, ?_⟩⟩
  rw [show values = _ from hvalues]
  exact (Stream.Delivers.ofList _).filterMap _

theorem yields_drain {rows : Rows} {v : Delivery ExecErr Row} (h : DeliversRows g R s rows v db) :
    Yields g R s (drain rows) v.drain db := by
  refine .ofProg ((h.fold _ _).imp ?_)
  have hdrain : v.collect (fun rows row => .ok (rows ++ [row])) [] = v.drain := by
    rw [Stream.collect_append]
    cases v.drain <;> rfl
  rintro r db' (⟨e, he, rfl⟩ | hr)
  · exact .inl he
  · rw [hr, hdrain]
    cases v.drain with
    | error e => exact .inr rfl
    | ok as => rfl

variable [IsTrans Database R]

theorem Reads.mono (h : Reads g R s op o db) (hdb : R db db') : Reads g R s op o db' := by
  refine Proc.Returns.mono ?_ hdb h
  rintro rows t t' ht ⟨v, hv, hrows⟩
  exact ⟨v, hv, hrows.mono ht⟩

theorem Serves.mono (h : Serves g R s db) (hdb : R db db') : Serves g R s db' :=
  fun name db'' hdb' => h name db'' (trans_of R hdb hdb')

/-- Ask for a table and go on with its definition. -/
theorem Serves.bind {α : Type} {name : Bytes} {wrap : CatalogErr → ExecErr}
    {f : TableDef → Exec α} {Q : α → Database → Prop} {E : ExecErr → Prop}
    (h : Serves g R s db) (hR : ∀ db db', R db db' → Unchanged db db')
    (hok : ∀ d db', db.catalog.getTable name = .ok d → R db db' →
      Reads g R s (tableScan name d) (db'.scan d) db' → (f d).Returns g R Q E s db')
    (herror : ∀ e, db.catalog.getTable name = .error e → E (wrap e)) :
    (getTable name wrap >>= f).Returns g R Q E s db := by
  rw [getTable, bind_assoc]
  refine .call_bind fun db' hdb => ?_
  refine (h name db' hdb).imp ?_
  rintro ⟨r, db''⟩ ⟨hdb', hr, hreads⟩
  have hcatalog : r = db.catalog.getTable name := by
    rw [show r = _ from hr, (hR db db' hdb).1]
  refine ⟨hdb', .bind (.ofExcept (fun d hd => ?_) fun e he => ?_)⟩
  all_goals cases r
  · cases hd
  · cases hd
    refine hok d db'' hcatalog.symm (trans_of R hdb hdb') ?_
    rw [(hR _ _ hdb').scan]
    exact hreads d rfl
  · cases he
    exact herror _ hcatalog.symm
  · cases he

variable [Std.Refl R]

/-! ### Operators -/

/-- Open an operator and go on with its rows. -/
theorem Reads.bind {α : Type} {f : Rows → Exec α} {Q : α → Database → Prop} {E : ExecErr → Prop}
    (h : Reads g R s op o db)
    (hok : ∀ rows v db', o = .ok v → R db db' → DeliversRows g R s rows v db' →
      (f rows).Returns g R Q E s db')
    (hwaits : ∀ e, Waits s e → E e) (herror : ∀ e, o = .error e → E e) :
    (op >>= f).Returns g R Q E s db := by
  refine .bind (Proc.Returns.imp ?_ ?_ (Proc.Returns.after h))
  · rintro rows db' ⟨hdb, v, hv, hrows⟩
    exact hok rows v db' hv hdb hrows
  · rintro e (he | he)
    · exact hwaits e he
    · exact herror e he

/-- An operator that works on each row as it comes. -/
theorem Reads.map {f : Rows → Rows} {f' : Delivery ExecErr Row → Delivery ExecErr Row}
    (h : Reads g R s op o db)
    (hf : ∀ rows v db, DeliversRows g R s rows v db → DeliversRows g R s (f rows) (f' v) db) :
    Reads g R s (do return f (← op)) (do return f' (← o)) db := by
  refine h.bind (fun rows v db' hv _ hrows => .pure ⟨f' v, ?_, hf rows v db' hrows⟩)
    (fun _ => .inl) fun e he => .inr ?_
  · rw [hv]; rfl
  · rw [he]; rfl

theorem reads_filter (h : Reads g R s op o db) (predicate : Expr) (columns : List ColumnDef) :
    Reads g R s (filter op predicate columns) (o.filter predicate columns) db :=
  h.map fun _ _ _ hrows => hrows.filterMap _

theorem reads_project (h : Reads g R s op o db) (exprs : List Expr) (columns : List ColumnDef) :
    Reads g R s (project op exprs columns) (o.project exprs columns) db :=
  h.map fun _ _ _ hrows => hrows.filterMap _

theorem reads_limit (h : Reads g R s op o db) (n : Int) : Reads g R s (limit op n) (o.limit n) db :=
  h.map fun _ _ _ hrows => hrows.take _

theorem reads_nestedLoopJoin (hleft : Reads g R s left o₁ db) (hright : Reads g R s right o₂ db)
    (condition : Option Expr) (columns : List ColumnDef) :
    Reads g R s (nestedLoopJoin left right condition columns) (o₁.join o₂ condition columns)
      db := by
  refine hleft.bind (fun leftRows v db₁ hv hdb₁ hleftRows => ?_) (fun _ => .inl)
    fun e he => .inr ?_
  swap
  · rw [he]; rfl
  subst hv
  have hright := hright.mono hdb₁
  refine hright.bind (fun rightRows w db₂ hw hdb₂ hrightRows => ?_) (fun _ => .inl)
    fun e he => .inr ?_
  swap
  · rw [he]; rfl
  subst hw
  have hright := hright.mono hdb₂
  refine .bind (.ofProg ((hleftRows.mono hdb₂).next.after.imp ?_))
  rintro (e | first) db₃ ⟨hdb₃, hfirst⟩
  · obtain he | rfl := hfirst
    · exact .inl he
    · exact .inr rfl
  refine .get_bind ?_
  cases first with
  | none =>
    obtain rfl := hfirst
    exact .pure ⟨_, rfl, rfl⟩
  | some first =>
    obtain ⟨leftRow, rest⟩ := first
    obtain ⟨v', rfl, hrest⟩ := hfirst
    refine .pure ⟨_, rfl, ((hrightRows.mono hdb₃).filterMap _).append (hrest.flatMap ?_)⟩
    intro leftRow
    refine (Stream.Delivers.ofProg (Prog.Steady.imp ?_ (hright.mono hdb₃))).filterMap _
    rintro ⟨e | rows, s'⟩ db₄ ⟨-, h⟩
    · exact h.resolve_right (by simp)
    · obtain ⟨w', hw', hrows⟩ := h
      cases hw'
      exact hrows

theorem reads_sort (h : Reads g R s op o db) (orderBy : List OrderClause)
    (columns : List ColumnDef) :
    Reads g R s (sort op orderBy columns) (o.sort orderBy columns) db := by
  refine h.bind (fun rows v db' hv _ hrows => ?_) (fun _ => .inl)
    fun e he => .inr ?_
  · subst hv
    have hopened : Cursor.sort (.ok v) orderBy columns = v.drain >>= fun rows =>
        return .ofList (rows.mergeSort fun a b => !sortLess columns b a orderBy) := rfl
    refine .bind ((yields_drain hrows).imp (fun sorted _ hsorted => .pure ⟨_, ?_, .ofList _⟩)
      fun e he => he.imp_right fun he => ?_)
    · rw [hopened, hsorted]
      rfl
    · rw [hopened, he]
      rfl
  · rw [he]
    rfl

theorem reads_aggregate (h : Reads g R s op o db) (groupBy exprs : List Expr)
    (columns : List ColumnDef) :
    Reads g R s (aggregate op groupBy exprs columns) (o.aggregate groupBy exprs columns) db := by
  refine h.bind (fun rows v db' hv _ hrows => ?_) (fun _ => .inl)
    fun e he => .inr ?_
  · subst hv
    refine .bind (.ofProg ((hrows.fold _ _).imp ?_))
    rintro r db'' (⟨e, he, rfl⟩ | hr)
    · exact .inl he
    cases r with
    | error e =>
      refine .inr ?_
      show (v.collect _ _ >>= _ : Cursor) = _
      rw [← hr]
      rfl
    | ok groups =>
      have hopened : Cursor.aggregate (.ok v) groupBy exprs columns =
          (groups.mapM fun group => groupRow exprs columns group.2.1 group.2.2) >>= fun results =>
            .ok (.ofList results) := by
        show (v.collect _ _ >>= _ : Cursor) = _
        rw [← hr]
        rfl
      refine .bind (.ofExcept (fun results hresults => .pure ⟨_, ?_, .ofList _⟩)
        fun e he => .inr ?_)
      · rw [hopened, hresults]
        rfl
      · rw [hopened, he]
        rfl
  · rw [he]
    rfl

theorem reads_overJoins (h : Reads g R s op o db) (stmt : SelectStmt) (columns : List ColumnDef) :
    Reads g R s (overJoins stmt op columns) (Cursor.overJoins stmt o columns) db := by
  have hfiltered : Reads g R s (stmt.where.elim op fun predicate => filter op predicate columns)
      (stmt.where.elim o fun predicate => o.filter predicate columns) db := by
    cases stmt.where with
    | none => exact h
    | some predicate => exact reads_filter h predicate columns
  have hsorted : ∀ op o, Reads g R s op o db →
      Reads g R s (sorted stmt columns op) (o.sorted stmt columns) db := by
    intro op o h
    rw [sorted, Cursor.sorted]
    split_ifs
    · exact h
    · exact reads_sort h _ _
  have hprojected : ∀ op o, Reads g R s op o db →
      Reads g R s (projected stmt columns op) (o.projected stmt columns) db := by
    intro op o h
    rw [projected, Cursor.projected]
    split_ifs
    · exact h
    · exact reads_project h _ _
  have hlimited : ∀ op o, Reads g R s op o db → Reads g R s (stmt.limit.elim op fun n => limit op n)
      (stmt.limit.elim o fun n => o.limit n) db := by
    intro op o h
    cases stmt.limit with
    | none => exact h
    | some n => exact reads_limit h n
  refine hlimited _ _ ?_
  split_ifs
  · exact reads_aggregate hfiltered _ _ _
  · exact hprojected _ _ (hsorted _ _ hfiltered)

/-! ### `SELECT` -/

variable (hR : ∀ db db', R db db' → Unchanged db db')

include hR

theorem reads_joinTables (hserves : Serves g R s db) (joins : List JoinClause)
    (columns : List ColumnDef) (h : Reads g R s op o db) :
    (joinTables op columns joins).Returns g R (fun r db' => ∃ o',
        db.joinTables o columns joins = .ok (o', r.2) ∧ Reads g R s r.1 o' db')
      (fun e => Waits s e ∨ db.joinTables o columns joins = .error e) s db := by
  induction joins generalizing op o columns db with
  | nil => exact .pure ⟨o, rfl, h⟩
  | cons join joins ih =>
    refine hserves.bind hR (fun d db' hd hdb hscan => ?_) fun e he => .inr ?_
    · have hjoin : db.joinTables o columns (join :: joins) =
          db'.joinTables (o.join (db'.scan d) join.on (columns ++ d.columns))
            (columns ++ d.columns) joins := by
        rw [Database.joinTables, hd, (hR _ _ hdb).scan, (hR _ _ hdb).joinTables]
        rfl
      rw [hjoin]
      exact ih (hserves.mono hdb) _ (reads_nestedLoopJoin (h.mono hdb) hscan _ _)
    · rw [Database.joinTables, he]
      rfl

/-- A `SELECT` returns what it delivers, unless it waits for a lock. -/
theorem yields_executeSelect (hserves : Serves g R s db) (stmt : SelectStmt) :
    Yields g R s (executeSelect stmt) (db.select stmt).rows db := by
  rw [Yields, executeSelect, buildSelectPipeline, bind_assoc]
  refine hserves.bind hR (fun d db' hd hdb hscan => ?_) fun e he => .inr ?_
  swap
  · rw [Database.select, he]
    rfl
  rw [select_of_getTable hd, ← (hR _ _ hdb).scan, ← (hR _ _ hdb).joinTables, bind_assoc]
  refine .bind (Proc.Returns.imp ?_ ?_ (reads_joinTables hR (hserves.mono hdb) stmt.joins d.columns
    hscan))
  · rintro ⟨op, columns⟩ db'' ⟨o, ho, hop⟩
    rw [ho]
    refine (reads_overJoins hop stmt columns).bind (fun rows v db₃ hv _ hrows => ?_)
      (fun _ => .inl) fun e he => .inr ?_
    · show Yields g R s (drain rows) (Cursor.rows (Cursor.overJoins stmt o columns)) db₃
      rw [hv]
      exact yields_drain hrows
    · show Cursor.rows (Cursor.overJoins stmt o columns) = _
      rw [he]
      rfl
  · rintro e (he | he)
    · exact .inl he
    · rw [he]
      exact .inr rfl

end Operators

/-! ### Every call accepted -/

theorem holds_total {db : Database} {o : DbOp} {P : DbI.Resp o × Database → Prop}
    (h : P (handler o db)) : (total o db).Holds P :=
  (Prog.holds_checked (I := DbI) (o := o)).mpr fun _ => ⟨trivial, h⟩

theorem serves_total (s : Session) (db : Database) : Serves total Unchanged s db := by
  refine fun name db' _ => holds_total ⟨refl_of _ db', rfl, fun d _ => ?_⟩
  refine reads_tableScan (P := Unchanged db') (returns_acquire (fun _ => refl_of _ db')
    fun txnID db₁ _ hdb₁ => holds_total ⟨⟨rfl, rfl⟩, fun _ => hdb₁⟩) ?_
  refine fun db₁ db₂ hdb₁ hdb₂ => holds_total ⟨refl_of _ db₂, ?_⟩
  rw [← (trans_of Unchanged hdb₁ hdb₂).2]
  rfl

/-- The outcome of a `SELECT`. Outside a transaction it does not wait. -/
theorem outcome_selectStmt (depth : Nat) (w : World) (stmt : SelectStmt) :
    w.outcome depth (.selectStmt stmt) = .error .blocked ∧ w.session.currentTxn ≠ none ∨
      w.outcome depth (.selectStmt stmt) = (w.db.select stmt).rows := by
  have h := (yields_executeSelect (fun _ _ => id) (serves_total w.session w.db) stmt).run.2
  change (Proc.run handler (executeSelect stmt) w.session w.db).1.1 = _ ∧ _ ∨
    (Proc.run handler (executeSelect stmt) w.session w.db).1.1 = _
  cases hrun : (Proc.run handler (executeSelect stmt) w.session w.db).1.1 with
  | ok rows =>
    rw [hrun] at h
    exact .inr h.symm
  | error e =>
    rw [hrun] at h
    obtain ⟨rfl, htxn⟩ | h := h
    · exact .inl ⟨rfl, htxn⟩
    · exact .inr h.symm

end MySQLight.Sql
