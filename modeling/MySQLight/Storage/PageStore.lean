import MySQLight.Storage.BTree
import MySQLight.Storage.InternalLayout

/-!
The pages under a tree.

A `PageStore` is the buffer pool as the tree code sees it while nothing
fails: a page has the bytes last written to it (that the pool keeps to this
is the subject of `Storage.Transparency`), and there is a frame and a free
page whenever one is asked for. Pins do not count. So the run of a procedure
comes down to the pages that it reads and writes.
-/

namespace MySQLight.Storage

open MySQLight.Data MySQLight.Effect

structure PageStore where
  page : Nat → PageData
  free : List Nat
  count : Nat

namespace PageStore

/-- The page that is allocated next. -/
def next (st : PageStore) : Nat := st.free.head?.getD st.count

def write (st : PageStore) (id : Nat) (data : PageData) : PageStore :=
  { st with page := Function.update st.page id data }

/-- The first free page is taken, or one more page is added. -/
def allocated (st : PageStore) : PageStore :=
  match st.free with
  | _ :: rest => { st with free := rest }
  | [] => { st.write st.count PageData.zero with count := st.count + 1 }

def freed (st : PageStore) (id : Nat) : PageStore :=
  { st.write id (Pager.linkPage (st.free.head?.getD 0)) with free := id :: st.free }

def handler : Prog.Handler DataI PageStore
  | .fetchPage id, st => (.ok (st.page id), st)
  | .unpinPage _ _, st => (.ok (), st)
  | .setData id data, st => ((), st.write id data)
  | .allocatePage, st => (.ok st.next, st.allocated)
  | .freePage id, st => (.ok (), st.freed id)

variable {σ α β : Type}

/-- Run a procedure: its outcome, its object, and the pages after it. -/
abbrev run (x : Proc DataI σ Err α) (s : σ) (st : PageStore) : (Except Err α × σ) × PageStore :=
  Proc.run handler x s st

/-- The leaf on a page. -/
abbrev leaf (st : PageStore) (id : Nat) : Node := ⟨id, .nodeLeaf, st.page id⟩

/-- The internal node on a page. -/
abbrev internal (st : PageStore) (id : Nat) : Node := ⟨id, .nodeInternal, st.page id⟩

/-! ### Pages -/

section Pages

variable {st : PageStore} {id i : Nat} {data : PageData}

@[simp] theorem page_write_self : (st.write id data).page id = data := Function.update_self ..

@[simp] theorem page_write_of_ne (h : i ≠ id) : (st.write id data).page i = st.page i :=
  Function.update_of_ne h ..

theorem page_allocated (h : i ≠ st.next) : st.allocated.page i = st.page i := by
  obtain ⟨page, _ | ⟨id, rest⟩, count⟩ := st
  · exact Function.update_of_ne h ..
  · rfl

end Pages

/-! ### Procedures -/

section Run

variable {s : σ} {st : PageStore} {id : Nat} {n n' : Node} {a : α} {f : α → Proc DataI σ Err β}

theorem run_bind {x : Proc DataI σ Err α} {s' : σ} {st' : PageStore}
    (h : run x s st = ((.ok a, s'), st')) : run (x >>= f) s st = run (f a) s' st' :=
  Proc.run_bind_of_ok h

theorem run_fetchPage (f : PageData → Proc DataI σ Err β) :
    run (fetchPage id >>= f) s st = run (f (st.page id)) s st := rfl

theorem run_allocatePage (f : Nat → Proc DataI σ Err β) :
    run (allocatePage >>= f) s st = run (f st.next) s st.allocated := rfl

theorem run_fetchLeaf {entries : List (Bytes × Bytes)} {sibling : Nat}
    (h : LeafPage (st.page id) entries sibling) (f : Node → Proc DataI σ Err β) :
    run (fetchNode id >>= f) s st = run (f (st.leaf id)) s st := by
  have hnode : decodeNode id (st.page id) = .ok (st.leaf id) := if_pos h.type_eq
  have hfetch : run (fetchNode id) s st = ((.ok (st.leaf id), s), st) := by
    rw [fetchNode, run_fetchPage, hnode]
    rfl
  exact run_bind hfetch

theorem run_fetchInternal {keys : List Bytes} {kids : List Nat}
    (h : LooseInternal (st.page id) keys kids) (f : Node → Proc DataI σ Err β) :
    run (fetchNode id >>= f) s st = run (f (st.internal id)) s st := by
  have hnode : decodeNode id (st.page id) = .ok (st.internal id) := by
    rw [decodeNode, h.type_eq, if_neg (by decide), if_pos rfl]
  have hfetch : run (fetchNode id) s st = ((.ok (st.internal id), s), st) := by
    rw [fetchNode, run_fetchPage, hnode]
    rfl
  exact run_bind hfetch

theorem run_orPanic {o : Option α} (h : o = some a) :
    run (orPanic o >>= f) s st = run (f a) s st := by
  rw [h]
  rfl

theorem run_update {g : Node → Option Node} (h : g n = some n') (f : Node → Proc DataI σ Err β) :
    run (update n g >>= f) s st = run (f n') s (st.write n'.pageID n'.data) := by
  rw [update, h]
  rfl

theorem run_attempt (x : Proc DataI σ Err α) (f : Except Err α → Proc DataI σ Err β) :
    run (Proc.attempt x >>= f) s st =
      run (f (run x s st).1.1) (run x s st).1.2 (run x s st).2 := by
  refine run_bind ?_
  rw [run, Proc.run, Proc.attempt, Prog.run_bind]
  rfl

/-- A procedure that gives pages back. -/
def Silent (x : Proc DataI σ Err Unit) : Prop := ∀ s st, run x s st = ((.ok (), s), st)

theorem silent_unpinPage (id : Nat) (dirty : Bool) :
    Silent (unpinPage id dirty : Proc DataI σ Err Unit) := fun _ _ => rfl

variable {cleanup : Proc DataI σ Err Unit} (h : Silent cleanup)

include h

theorem run_onError (x : Proc DataI σ Err α) :
    run (Proc.onError x cleanup) s st = run x s st := by
  rw [Proc.onError, run_attempt]
  rcases run x s st with ⟨⟨e | a, s'⟩, st'⟩
  · refine (run_attempt cleanup _).trans ?_
    rw [h]
    rfl
  · rfl

theorem run_defer (x : Proc DataI σ Err α) : run (Proc.defer cleanup x) s st = run x s st := by
  rw [Proc.defer, run_attempt, run_attempt, h]
  rfl

theorem run_cleanup (x : Proc DataI σ Err Unit) :
    run (x >>= fun _ => cleanup) s st = run x s st := by
  rcases hx : run x s st with ⟨⟨_ | _, _⟩, _⟩
  · exact Proc.run_bind_of_error hx
  · exact (run_bind hx).trans (h _ _)

end Run

end PageStore

end MySQLight.Storage
