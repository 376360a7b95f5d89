import MySQLight.Catalog.Catalog
import MySQLight.Effect.Keeps

/-!
A live catalog and a fresh one.

`Describes` says what it means that bindings, maps and lists are about the
same definitions. The bindings determine the rest, so two catalogs over
one tree that are described by it agree. A fresh `Open` is described by
its tree, and every call but one keeps the live catalog so.

The call that does not is `CreateTable` for a name that an index already
refers to: it starts the list of the table's indexes anew.
-/

namespace MySQLight.Schema

open MySQLight.Data MySQLight.Effect MySQLight.Storage Fallible

/-! ### What a tree says about tables and indexes -/

/-- The bindings `bound` are those of the definitions, and `names` lists
for every table the indexes that refer to it. -/
structure Describes (bound : Bytes → Option Bytes) (names : Bytes → List Bytes)
    (tables : AList fun _ : Bytes => TableDef) (indexes : AList fun _ : Bytes => IndexDef) :
    Prop where
  table : ∀ name d, tables.lookup name = some d →
    d.name = name ∧ d.Encodable ∧ bound name = some (encodeTableDef d)
  index : ∀ name d, indexes.lookup name = some d →
    d.name = name ∧ d.Encodable ∧ bound name = some (encodeIndexDef d)
  entry : ∀ name value, bound name = some value →
    (∃ d, tables.lookup name = some d) ∨ ∃ d, indexes.lookup name = some d
  listed : ∀ table name, name ∈ names table ↔
    ∃ d, indexes.lookup name = some d ∧ d.tableName = table
  nodup : ∀ table, (names table).Nodup

/-! The maps of tables and of indexes are treated alike: each definition of
a map is bound to its encoding. -/

section Bindings

variable {β : Type} {m : AList fun _ : Bytes => β} {bound : Bytes → Option Bytes} {key : Bytes}
  {p q : Bytes → β → Prop} {encode : β → Bytes}

theorem lookup_of_erase {name : Bytes} {b : β} (h : (m.erase key).lookup name = some b) :
    name ≠ key ∧ m.lookup name = some b := by
  by_cases hname : name = key
  · subst hname
    rw [AList.lookup_erase] at h
    cases h
  · rw [AList.lookup_erase_ne hname] at h
    exact ⟨hname, h⟩

section

variable
  (h : ∀ name e, m.lookup name = some e → p name e ∧ q name e ∧ bound name = some (encode e))

include h

theorem encoded_update {v : Option Bytes} (name : Bytes) (e : β)
    (he : name ≠ key ∧ m.lookup name = some e) :
    p name e ∧ q name e ∧ Function.update bound key v name = some (encode e) := by
  rw [Function.update_of_ne he.1]
  exact h name e he.2

/-- A name that is not bound has no definition. -/
theorem lookup_eq_none_of_encoded (hfree : bound key = none) : m.lookup key = none := by
  refine Option.eq_none_iff_forall_ne_some.mpr fun e he => ?_
  have hbound := (h key e he).2.2
  rw [hfree] at hbound
  cases hbound

theorem encoded_update_of_free {v : Option Bytes} (hfree : bound key = none) (name : Bytes) (e : β)
    (he : m.lookup name = some e) :
    p name e ∧ q name e ∧ Function.update bound key v name = some (encode e) := by
  refine encoded_update h name e ⟨?_, he⟩
  rintro rfl
  cases (lookup_eq_none_of_encoded h hfree).symm.trans he

theorem encoded_insert {d : β} (hp : p key d) (hq : q key d) (name : Bytes) (e : β)
    (he : (m.insert key d).lookup name = some e) :
    p name e ∧ q name e ∧ Function.update bound key (some (encode d)) name = some (encode e) := by
  by_cases hname : name = key
  · subst hname
    rw [AList.lookup_insert] at he
    cases he
    exact ⟨hp, hq, Function.update_self ..⟩
  · rw [AList.lookup_insert_ne hname] at he
    exact encoded_update h name e ⟨hname, he⟩

end

/-- Every binding is one of a definition. -/
theorem bound_update {A A' : Bytes → Prop} {v : Option Bytes}
    (h : ∀ name value, bound name = some value → A name) (hkey : v ≠ none → A' key)
    (hrest : ∀ name, name ≠ key → A name → A' name) (name value : Bytes)
    (hvalue : Function.update bound key v name = some value) : A' name := by
  by_cases hname : name = key
  · subst hname
    rw [Function.update_self] at hvalue
    exact hkey (by rw [hvalue]; nofun)
  · rw [Function.update_of_ne hname] at hvalue
    exact hrest name hname (h name value hvalue)

theorem eq_of_encode {ε : Type} {decode : Bytes → Except ε β} {d e : β}
    (hd : decode (encode d) = .ok d) (he : decode (encode e) = .ok e) (h : encode d = encode e) :
    d = e := by
  rw [h, he] at hd
  exact (Except.ok.inj hd).symm

end Bindings

theorem encodeTableDef_ne_encodeIndexDef (d : TableDef) (i : IndexDef) :
    encodeTableDef d ≠ encodeIndexDef i := by
  intro h
  cases (List.cons.inj h).1

namespace Describes

variable {bound : Bytes → Option Bytes} {names names' : Bytes → List Bytes}
  {tables tables' : AList fun _ : Bytes => TableDef}
  {indexes indexes' : AList fun _ : Bytes => IndexDef}

theorem empty : Describes (fun _ => none) (fun _ => []) ∅ ∅ where
  table := nofun
  index := nofun
  entry := nofun
  listed _ _ := ⟨nofun, nofun⟩
  nodup _ := List.nodup_nil

variable {name : Bytes} {d : TableDef}

theorem addTable (h : Describes bound names tables indexes) (hd : d.Encodable)
    (hfree : bound d.name = none) :
    Describes (Function.update bound d.name (some (encodeTableDef d))) names
      (tables.insert d.name d) indexes where
  table := encoded_insert h.table rfl hd
  index := encoded_update_of_free h.index hfree
  entry := by
    refine bound_update h.entry (fun _ => .inl ⟨d, AList.lookup_insert ..⟩) fun name hname => ?_
    rw [AList.lookup_insert_ne hname]
    exact id
  listed := h.listed
  nodup := h.nodup

theorem addIndex (h : Describes bound names tables indexes) {d : IndexDef} (hd : d.Encodable)
    (hfree : bound d.name = none) :
    Describes (Function.update bound d.name (some (encodeIndexDef d)))
      (Function.update names d.tableName (names d.tableName ++ [d.name]))
      tables (indexes.insert d.name d) where
  table := encoded_update_of_free h.table hfree
  index := encoded_insert h.index rfl hd
  entry := by
    refine bound_update h.entry (fun _ => .inr ⟨d, AList.lookup_insert ..⟩) fun name hname => ?_
    rw [AList.lookup_insert_ne hname]
    exact id
  listed := by
    intro table name
    have hold := h.listed table name
    have hmem : name ∈ Function.update names d.tableName (names d.tableName ++ [d.name]) table ↔
        name ∈ names table ∨ (name = d.name ∧ table = d.tableName) := by
      by_cases htable : table = d.tableName
      · subst htable
        simp
      · simp [htable]
    rw [hmem, hold]
    by_cases hname : name = d.name
    · subst hname
      rw [AList.lookup_insert, lookup_eq_none_of_encoded h.index hfree]
      simp [eq_comm]
    · rw [AList.lookup_insert_ne hname]
      simp [hname]
  nodup := by
    intro table
    by_cases htable : table = d.tableName
    · subst htable
      rw [Function.update_self]
      refine (h.nodup _).append (List.nodup_singleton _) ?_
      rw [List.disjoint_singleton, h.listed, lookup_eq_none_of_encoded h.index hfree]
      rintro ⟨e, he, -⟩
      cases he
    · rw [Function.update_of_ne htable]
      exact h.nodup table

/-- No name is both. -/
theorem not_both (h : Describes bound names tables indexes) {i : IndexDef}
    (hd : tables.lookup name = some d) (hi : indexes.lookup name = some i) : False := by
  have htable := (h.table _ d hd).2.2
  rw [(h.index _ i hi).2.2] at htable
  exact encodeTableDef_ne_encodeIndexDef d i (Option.some.inj htable).symm

theorem dropIndex (h : Describes bound names tables indexes) {d : IndexDef}
    (hd : indexes.lookup name = some d) :
    Describes (Function.update bound name none)
      (Function.update names d.tableName ((names d.tableName).erase name))
      tables (indexes.erase name) where
  table name' e he :=
    encoded_update h.table name' e ⟨fun heq => h.not_both (heq ▸ he) hd, he⟩
  index name' e he := encoded_update h.index name' e (lookup_of_erase he)
  entry := by
    refine bound_update h.entry (fun hv => absurd rfl hv) fun name' hname => ?_
    rw [AList.lookup_erase_ne hname]
    exact id
  listed := by
    intro table name'
    have hold := h.listed table name'
    have hmem : name' ∈ Function.update names d.tableName ((names d.tableName).erase name) table ↔
        name' ∈ names table ∧ name' ≠ name := by
      by_cases htable : table = d.tableName
      · subst htable
        rw [Function.update_self, (h.nodup _).mem_erase_iff]
        exact and_comm
      · rw [Function.update_of_ne htable]
        refine ⟨fun hmem => ⟨hmem, ?_⟩, And.left⟩
        rintro rfl
        obtain ⟨e, he, rfl⟩ := hold.mp hmem
        rw [hd] at he
        cases he
        exact htable rfl
    rw [hmem, hold]
    by_cases hname : name' = name
    · subst hname
      simp [AList.lookup_erase]
    · rw [AList.lookup_erase_ne hname]
      simp [hname]
  nodup := by
    intro table
    by_cases htable : table = d.tableName
    · subst htable
      rw [Function.update_self]
      exact (h.nodup _).erase name
    · rw [Function.update_of_ne htable]
      exact h.nodup table

theorem dropTable (h : Describes bound names tables indexes) (hd : tables.lookup name = some d) :
    Describes (Function.update bound name none) names (tables.erase name) indexes where
  table name' e he := encoded_update h.table name' e (lookup_of_erase he)
  index name' e he :=
    encoded_update h.index name' e ⟨fun heq => h.not_both hd (heq ▸ he), he⟩
  entry := by
    refine bound_update h.entry (fun hv => absurd rfl hv) fun name' hname => ?_
    rw [AList.lookup_erase_ne hname]
    exact id
  listed := h.listed
  nodup := h.nodup

/-- The bindings determine the tables. -/
theorem lookup_tables (h : Describes bound names tables indexes)
    (h' : Describes bound names' tables' indexes') (hd : tables.lookup name = some d) :
    tables'.lookup name = some d := by
  obtain ⟨-, henc, hbound⟩ := h.table name d hd
  obtain ⟨e, he⟩ | ⟨e, he⟩ := h'.entry name _ hbound
  · obtain ⟨-, henc', hbound'⟩ := h'.table name e he
    have heq := Option.some.inj (hbound.symm.trans hbound')
    rwa [eq_of_encode henc.decode_encode henc'.decode_encode heq]
  · have hbound' := (h'.index name e he).2.2
    rw [hbound] at hbound'
    exact absurd (Option.some.inj hbound') (encodeTableDef_ne_encodeIndexDef d e)

/-- The bindings determine the indexes. -/
theorem lookup_indexes (h : Describes bound names tables indexes)
    (h' : Describes bound names' tables' indexes') {d : IndexDef}
    (hd : indexes.lookup name = some d) : indexes'.lookup name = some d := by
  obtain ⟨-, henc, hbound⟩ := h.index name d hd
  obtain ⟨e, he⟩ | ⟨e, he⟩ := h'.entry name _ hbound
  · have hbound' := (h'.table name e he).2.2
    rw [hbound] at hbound'
    exact absurd (Option.some.inj hbound').symm (encodeTableDef_ne_encodeIndexDef e d)
  · obtain ⟨-, henc', hbound'⟩ := h'.index name e he
    have heq := Option.some.inj (hbound.symm.trans hbound')
    rwa [eq_of_encode henc.decode_encode henc'.decode_encode heq]

theorem mem_names (h : Describes bound names tables indexes)
    (h' : Describes bound names' tables' indexes') (table name : Bytes) :
    name ∈ names table ↔ name ∈ names' table := by
  rw [h.listed, h'.listed]
  exact ⟨fun ⟨d, hd, ht⟩ => ⟨d, h.lookup_indexes h' hd, ht⟩,
    fun ⟨d, hd, ht⟩ => ⟨d, h'.lookup_indexes h hd, ht⟩⟩

end Describes

/-! ### The live catalog -/

namespace Catalog

variable {c c' : Catalog}

/-- The maps in memory are those of the bindings. -/
structure Loaded (bound : Bytes → Option Bytes) (c : Catalog) : Prop where
  describes : Describes bound c.indexNames c.tables c.indexes
  known : ∀ name d, c.tables.lookup name = some d → (c.tableIndexes.lookup name).isSome

/-- The maps in memory are those of the tree. -/
abbrev Ok (c : Catalog) : Prop := Loaded c.tree.lookup c

/-- The same tables, the same indexes, and the same index names for every
table. -/
structure Agrees (c c' : Catalog) : Prop where
  tables : ∀ name, c.tables.lookup name = c'.tables.lookup name
  indexes : ∀ name, c.indexes.lookup name = c'.indexes.lookup name
  indexesForTable : ∀ name, (c.tables.lookup name).isSome → ∃ ds ds',
    c.indexesForTable name = .ok ds ∧ c'.indexesForTable name = .ok ds' ∧
      ∀ i, i ∈ ds.map (·.name) ↔ i ∈ ds'.map (·.name)

theorem mapM_indexes {names : List Bytes}
    (h : ∀ name ∈ names, ∃ d, c.indexes.lookup name = some d ∧ d.name = name) :
    ∃ ds, (names.mapM fun name =>
      match c.indexes.lookup name with
      | none => Except.error CatalogErr.indexNotFound
      | some index => .ok index) = .ok ds ∧ ds.map (·.name) = names := by
  induction names with
  | nil => exact ⟨[], rfl, rfl⟩
  | cons name names ih =>
    obtain ⟨⟨d, hd, hname⟩, hnames⟩ := List.forall_mem_cons.mp h
    obtain ⟨ds, hds, hmap⟩ := ih hnames
    refine ⟨d :: ds, ?_, ?_⟩
    · rw [List.mapM_cons, hds, hd]
      rfl
    · rw [List.map_cons, hname, hmap]

theorem Loaded.indexesForTable {bound : Bytes → Option Bytes} (h : Loaded bound c) {name : Bytes}
    (hname : (c.tables.lookup name).isSome) :
    ∃ ds, c.indexesForTable name = .ok ds ∧ ds.map (·.name) = c.indexNames name := by
  obtain ⟨d, hd⟩ := Option.isSome_iff_exists.mp hname
  obtain ⟨names, hnames⟩ := Option.isSome_iff_exists.mp (h.known name d hd)
  have heq : c.indexNames name = names := by rw [indexNames, hnames, Option.getD_some]
  rw [Catalog.indexesForTable, hnames, heq]
  refine mapM_indexes fun i hi => ?_
  rw [← heq, h.describes.listed] at hi
  obtain ⟨e, he, -⟩ := hi
  exact ⟨e, he, (h.describes.index i e he).1⟩

theorem Loaded.agrees {bound : Bytes → Option Bytes} (h : Loaded bound c) (h' : Loaded bound c') :
    Agrees c c' := by
  have hd := h.describes
  have hd' := h'.describes
  have htables : ∀ name, c.tables.lookup name = c'.tables.lookup name := fun name =>
    Option.ext fun d => ⟨hd.lookup_tables hd', hd'.lookup_tables hd⟩
  refine ⟨htables, fun name => Option.ext fun d => ⟨hd.lookup_indexes hd', hd'.lookup_indexes hd⟩,
    fun name hname => ?_⟩
  obtain ⟨ds, hds, hmap⟩ := h.indexesForTable hname
  obtain ⟨ds', hds', hmap'⟩ := h'.indexesForTable (htables name ▸ hname)
  refine ⟨ds, ds', hds, hds', fun i => ?_⟩
  rw [hmap, hmap']
  exact hd.mem_names hd' name i

/-! ### A fresh `Open` -/

/-- Every entry of a tree is a definition under its name. -/
def Stored (tree : OrderedTree) : Prop :=
  ∀ name value, tree.lookup name = some value →
    (∃ d : TableDef, d.Encodable ∧ d.name = name ∧ value = encodeTableDef d) ∨
      ∃ d : IndexDef, d.Encodable ∧ d.name = name ∧ value = encodeIndexDef d

theorem stored_of_ok (h : c.Ok) : Stored c.tree := by
  intro name value hvalue
  obtain ⟨d, hd⟩ | ⟨d, hd⟩ := h.describes.entry name value hvalue
  · obtain ⟨hname, henc, hbound⟩ := h.describes.table name d hd
    rw [hvalue] at hbound
    exact .inl ⟨d, henc, hname, Option.some.inj hbound⟩
  · obtain ⟨hname, henc, hbound⟩ := h.describes.index name d hd
    rw [hvalue] at hbound
    exact .inr ⟨d, henc, hname, Option.some.inj hbound⟩

variable {d : TableDef}

theorem load_of_table {entry : Bytes × Bytes} (hkind : entry.2.head? = some 1)
    (hd : decodeTableDef entry.2 = .ok d) : c.load entry = .ok (c.loadTable entry.1 d) := by
  rw [load, hkind]
  dsimp only
  rw [if_pos rfl, hd]

theorem load_of_index {entry : Bytes × Bytes} {d : IndexDef} (hkind : entry.2.head? = some 2)
    (hd : decodeIndexDef entry.2 = .ok d) : c.load entry = .ok (c.loadIndex entry.1 d) := by
  rw [load, hkind]
  dsimp only
  rw [if_neg (by decide), if_pos rfl, hd]

theorem head_encodeTableDef (d : TableDef) : (encodeTableDef d).head? = some 1 := rfl

theorem head_encodeIndexDef (d : IndexDef) : (encodeIndexDef d).head? = some 2 := rfl

theorem load_table (hd : d.Encodable) :
    c.load (d.name, encodeTableDef d) = .ok (c.loadTable d.name d) :=
  load_of_table (head_encodeTableDef d) hd.decode_encode

theorem load_index {d : IndexDef} (hd : d.Encodable) :
    c.load (d.name, encodeIndexDef d) = .ok (c.loadIndex d.name d) :=
  load_of_index (head_encodeIndexDef d) hd.decode_encode

theorem indexNames_insert (table : Bytes) (names : List Bytes) :
    indexNames { c with tableIndexes := c.tableIndexes.insert table names } =
      Function.update c.indexNames table names := by
  funext name
  by_cases hname : name = table
  · subst hname
    rw [Function.update_self, indexNames, AList.lookup_insert, Option.getD_some]
  · rw [Function.update_of_ne hname, indexNames, AList.lookup_insert_ne hname, indexNames]

theorem indexNames_loadTable (key : Bytes) (d : TableDef) :
    (c.loadTable key d).indexNames = c.indexNames := by
  unfold loadTable
  by_cases hsome : (c.tableIndexes.lookup d.name).isSome
  · simp only [hsome, if_true]
    rfl
  · simp only [hsome, if_false, Bool.false_eq_true]
    refine (indexNames_insert (c := { c with tables := _ }) d.name []).trans ?_
    refine Function.update_eq_self_iff.mpr ?_
    rw [indexNames, Option.not_isSome_iff_eq_none.mp hsome, Option.getD_none]

theorem isSome_lookup_insert {α : Bytes → Type} {m : AList α} {key name : Bytes} {a : α key}
    (h : (m.lookup name).isSome) : ((m.insert key a).lookup name).isSome := by
  rw [AList.lookup_isSome] at h ⊢
  exact (AList.mem_insert m).mpr (.inr h)

namespace Loaded

variable {bound : Bytes → Option Bytes}

theorem loadTable (h : Loaded bound c) {d : TableDef} (hd : d.Encodable)
    (hfree : bound d.name = none) :
    Loaded (Function.update bound d.name (some (encodeTableDef d))) (c.loadTable d.name d) where
  describes := by
    rw [indexNames_loadTable]
    exact h.describes.addTable hd hfree
  known := by
    intro name e he
    rw [Catalog.loadTable] at he ⊢
    by_cases hname : name = d.name
    · subst hname
      dsimp only
      split_ifs with hsome
      · exact hsome
      · rw [AList.lookup_insert]
        rfl
    · rw [AList.lookup_insert_ne hname] at he
      have hknown := h.known name e he
      dsimp only
      split_ifs with hsome
      · exact hknown
      · exact isSome_lookup_insert hknown

theorem loadIndex (h : Loaded bound c) {d : IndexDef} (hd : d.Encodable)
    (hfree : bound d.name = none) :
    Loaded (Function.update bound d.name (some (encodeIndexDef d))) (c.loadIndex d.name d) where
  describes := by
    have hnames : (c.loadIndex d.name d).indexNames = _ :=
      indexNames_insert (c := { c with indexes := c.indexes.insert d.name d }) d.tableName _
    rw [hnames]
    exact h.describes.addIndex hd hfree
  known := fun name e he => isSome_lookup_insert (h.known name e he)

/-- `Open` goes through the entries. -/
theorem foldlM_load (h : Loaded bound c) {es : List (Bytes × Bytes)}
    (hes : es.Pairwise fun a b => a.1 < b.1) (hfree : ∀ e ∈ es, bound e.1 = none)
    (hstored : ∀ e ∈ es,
      (∃ d : TableDef, d.Encodable ∧ d.name = e.1 ∧ e.2 = encodeTableDef d) ∨
        ∃ d : IndexDef, d.Encodable ∧ d.name = e.1 ∧ e.2 = encodeIndexDef d) :
    ∃ c', es.foldlM load c = .ok c' ∧ Loaded (OrderedMap.bindAll bound es) c' ∧
      c'.tree = c.tree := by
  induction es generalizing bound c with
  | nil => exact ⟨c, rfl, h, rfl⟩
  | cons e es ih =>
    obtain ⟨key, value⟩ := e
    obtain ⟨hlt, hsorted⟩ := List.pairwise_cons.mp hes
    obtain ⟨hnone, hnones⟩ := List.forall_mem_cons.mp hfree
    obtain ⟨hdef, hdefs⟩ := List.forall_mem_cons.mp hstored
    have hrest : ∀ e ∈ es, Function.update bound key (some value) e.1 = none := by
      intro e he
      rw [Function.update_of_ne (hlt e he).ne']
      exact hnones e he
    have hfirst : ∃ c₁, c.load (key, value) = .ok c₁ ∧
        Loaded (Function.update bound key (some value)) c₁ ∧ c₁.tree = c.tree := by
      obtain ⟨d, hd, rfl, rfl⟩ | ⟨d, hd, rfl, rfl⟩ := hdef
      · exact ⟨_, load_table hd, h.loadTable hd hnone, rfl⟩
      · exact ⟨_, load_index hd, h.loadIndex hd hnone, rfl⟩
    obtain ⟨c₁, hc₁, hloaded₁, htree₁⟩ := hfirst
    obtain ⟨c', hc', hloaded, htree⟩ := ih hloaded₁ hsorted hrest hdefs
    refine ⟨c', ?_, hloaded, htree.trans htree₁⟩
    rw [List.foldlM_cons, hc₁]
    exact hc'

end Loaded

/-- A stored catalog can be opened. -/
theorem Stored.openTree {tree : OrderedTree} (h : Stored tree) :
    ∃ c, Catalog.openTree tree = .ok c ∧ c.Ok ∧ c.tree = tree := by
  have hempty : Loaded (fun _ => none) { tree := tree } := ⟨.empty, nofun⟩
  obtain ⟨c, hc, hloaded, htree⟩ := hempty.foldlM_load tree.map.sorted (fun _ _ => rfl)
    fun e he => h e.1 e.2 (OrderedTree.mem_entries.mp he)
  refine ⟨c, hc, ?_, htree⟩
  rw [OrderedMap.bindAll_entries] at hloaded
  rw [Ok, htree]
  exact hloaded

/-! ### What the calls do -/

variable {key value : Bytes} {tree : OrderedTree} {e : Err}

theorem run_insertEntry (h : c.tree.insert key value = .ok tree) :
    (insertEntry key value).run c = (.ok (), { c with tree := tree }) := by
  rw [insertEntry, run_bind, run_get]
  dsimp only
  rw [h, run_modify]

theorem run_insertEntry_of_error (h : c.tree.insert key value = .error e) :
    (insertEntry key value).run c = (.error (.storage e), c) := by
  rw [insertEntry, run_bind, run_get]
  dsimp only
  rw [h, run_throw]

theorem run_deleteEntry (h : c.tree.delete key = .ok tree) :
    (deleteEntry key).run c = (.ok (), { c with tree := tree }) := by
  rw [deleteEntry, run_bind, run_get]
  dsimp only
  rw [h, run_modify]

section Create

variable {α : Type} (taken : Catalog → Option α) (already : CatalogErr) (root : Except Err UInt32)
  (name : Bytes) (encode : UInt32 → Bytes) (register : UInt32 → Catalog → Catalog) (c : Catalog)

/-- What `CreateTable` and `CreateIndex` have in common: the look at the map,
the root page, the entry in the tree, and the changes of the maps. -/
def create : Fallible Catalog CatalogErr Unit := do
  if (taken (← get)).isSome then throw already
  let pageID ← allocateNewRoot root
  insertEntry name (encode pageID)
  modify (register pageID)

theorem run_create : (create taken already root name encode register).run c =
      if (taken c).isSome then (.error already, c)
      else match root with
        | .error e => (.error (.storage e), c)
        | .ok pageID =>
          match c.tree.insert name (encode pageID) with
          | .error e => (.error (.storage e), c)
          | .ok tree => (.ok (), register pageID { c with tree := tree }) := by
  rw [create, run_bind, run_get]
  dsimp only
  split_ifs
  · rfl
  cases root with
  | error e => rfl
  | ok pageID =>
    dsimp only [allocateNewRoot]
    rw [run_bind_of_ok (run_pure _ _)]
    cases hinsert : c.tree.insert name (encode pageID) with
    | error e => rw [run_bind_of_error (run_insertEntry_of_error hinsert)]
    | ok tree => rw [run_bind_of_ok (run_insertEntry hinsert), run_modify]

/-- A new definition, or nothing. -/
theorem run_create_cases :
    ((create taken already root name encode register).run c).2 = c ∨ ∃ pageID tree,
      root = .ok pageID ∧ c.tree.insert name (encode pageID) = .ok tree ∧ taken c = none ∧
      ((create taken already root name encode register).run c).2 =
        register pageID { c with tree := tree } := by
  rw [run_create]
  split_ifs with htaken
  · exact .inl rfl
  split
  · exact .inl rfl
  · next pageID =>
      split
      · exact .inl rfl
      · next tree hinsert =>
          exact .inr ⟨pageID, tree, rfl, hinsert, Option.not_isSome_iff_eq_none.mp htaken, rfl⟩

end Create

theorem createTable_eq (root : Except Err UInt32) (d : TableDef) :
    createTable root d = create (·.tables.lookup d.name) .tableAlreadyExists root
      d.name (fun pageID => encodeTableDef { d with rootPageID := pageID }) fun pageID c =>
        { c with
          tables := c.tables.insert d.name { d with rootPageID := pageID }
          tableIndexes := c.tableIndexes.insert d.name [] } := rfl

theorem createIndex_eq (root : Except Err UInt32) (d : IndexDef) :
    createIndex root d = create (·.indexes.lookup d.name) .indexAlreadyExists root
      d.name (fun pageID => encodeIndexDef { d with rootPageID := pageID }) fun pageID c =>
        { c with
          indexes := c.indexes.insert d.name { d with rootPageID := pageID }
          tableIndexes :=
            c.tableIndexes.insert d.tableName (c.indexNames d.tableName ++ [d.name]) } := rfl

theorem step_createTable (c : Catalog) (root : Except Err UInt32) (d : TableDef) :
    c.step (.createTable root d) = c ∨ ∃ pageID tree, root = .ok pageID ∧
      c.tree.insert d.name (encodeTableDef { d with rootPageID := pageID }) = .ok tree ∧
      c.tables.lookup d.name = none ∧
      c.step (.createTable root d) =
        { c with
          tree := tree
          tables := c.tables.insert d.name { d with rootPageID := pageID }
          tableIndexes := c.tableIndexes.insert d.name [] } := by
  rw [step, call, createTable_eq]
  exact run_create_cases ..

theorem step_createIndex (c : Catalog) (root : Except Err UInt32) (d : IndexDef) :
    c.step (.createIndex root d) = c ∨ ∃ pageID tree, root = .ok pageID ∧
      c.tree.insert d.name (encodeIndexDef { d with rootPageID := pageID }) = .ok tree ∧
      c.indexes.lookup d.name = none ∧
      c.step (.createIndex root d) =
        { c with
          tree := tree
          indexes := c.indexes.insert d.name { d with rootPageID := pageID }
          tableIndexes :=
            c.tableIndexes.insert d.tableName (c.indexNames d.tableName ++ [d.name]) } := by
  rw [step, call, createIndex_eq]
  exact run_create_cases ..

theorem lookup_of_insert (h : c.tree.insert key value = .ok tree) :
    tree.lookup = Function.update c.tree.lookup key (some value) ∧ c.tree.lookup key = none ∧
      value.length < 65536 := by
  obtain ⟨hsize, hnone, rfl⟩ := OrderedTree.insert_eq_ok.mp h
  refine ⟨?_, hnone, ?_⟩
  · funext name
    rw [OrderedTree.lookup_bind, Function.update_apply]
  · have hcap : entryCap = 1362 := rfl
    rw [BTree.entrySize] at hsize
    omega

theorem delete_of_mem (h : c.tree.lookup key = some value) :
    ∃ tree, c.tree.delete key = .ok tree ∧
      tree.lookup = Function.update c.tree.lookup key none := by
  refine ⟨_, OrderedTree.delete_eq_ok.mpr ⟨⟨value, h⟩, rfl⟩, ?_⟩
  funext name
  rw [OrderedTree.lookup_unbind, Function.update_apply]

/-- The table has the defaults of its column types, and unless it exists
already no index refers to its name. -/
def Sound (c : Catalog) : CatalogCall → Prop
  | .createTable _ d =>
    (∀ column ∈ d.columns, ∀ v ∈ column.default, v.Fits column.type) ∧
      (c.tables.lookup d.name = none →
        ∀ name index, c.indexes.lookup name = some index → index.tableName ≠ d.name)
  | _ => True

theorem Loaded.createTable (h : c.Ok) (root : Except Err UInt32)
    (hsound : c.Sound (.createTable root d)) : (c.step (.createTable root d)).Ok := by
  obtain hsame | ⟨pageID, tree, -, hinsert, hnone, heq⟩ := step_createTable c root d
  · rwa [hsame]
  · obtain ⟨hlookup, hfree, hlen⟩ := lookup_of_insert hinsert
    have henc : TableDef.Encodable { d with rootPageID := pageID } :=
      TableDef.encodable_of_length hsound.1 hlen
    have hnames : c.indexNames d.name = [] := by
      refine List.eq_nil_iff_forall_not_mem.mpr fun name hname => ?_
      obtain ⟨index, hindex, htable⟩ := (h.describes.listed _ _).mp hname
      exact hsound.2 hnone name index hindex htable
    rw [heq]
    refine ⟨?_, ?_⟩
    · have hsame : Function.update c.indexNames d.name [] = c.indexNames :=
        Function.update_eq_self_iff.mpr hnames.symm
      have hnames' := (indexNames_insert (c := { c with
        tree := tree, tables := c.tables.insert d.name { d with rootPageID := pageID } })
        d.name []).trans hsame
      rw [hnames']
      dsimp only
      rw [hlookup]
      exact h.describes.addTable henc hfree
    · intro name e he
      by_cases hname : name = d.name
      · subst hname
        dsimp only
        rw [AList.lookup_insert]
        rfl
      · dsimp only at he
        rw [AList.lookup_insert_ne hname] at he
        exact isSome_lookup_insert (h.known name e he)

theorem Loaded.createIndex (h : c.Ok) (root : Except Err UInt32) (d : IndexDef) :
    (c.step (.createIndex root d)).Ok := by
  obtain hsame | ⟨pageID, tree, -, hinsert, -, heq⟩ := step_createIndex c root d
  · rwa [hsame]
  · obtain ⟨hlookup, hfree, hlen⟩ := lookup_of_insert hinsert
    have henc : IndexDef.Encodable { d with rootPageID := pageID } :=
      IndexDef.encodable_of_length hlen
    rw [heq]
    refine ⟨?_, fun name e he => isSome_lookup_insert (h.known name e he)⟩
    have hnames := indexNames_insert (c := { c with
      tree := tree, indexes := c.indexes.insert d.name { d with rootPageID := pageID } })
      d.tableName (c.indexNames d.tableName ++ [d.name])
    rw [hnames]
    dsimp only
    rw [hlookup]
    exact h.describes.addIndex henc hfree

variable {table name : Bytes}

theorem unlist_of_mem (h : name ∈ c.indexNames table) : c.unlist table name =
    { c with tableIndexes := c.tableIndexes.insert table ((c.indexNames table).erase name) } := by
  rw [unlist, if_pos h]

theorem Loaded.dropIndex (h : c.Ok) (name : Bytes) : (c.step (.dropIndex name)).Ok := by
  rw [step, call, Catalog.dropIndex, run_bind, run_get]
  dsimp only
  cases hindex : c.indexes.lookup name with
  | none =>
    have hget : c.getIndex name = .error .indexNotInMap := by rw [getIndex, hindex]
    rw [hget, run_bind_of_error (run_ofExcept _ _)]
    exact h
  | some index =>
    have hget : c.getIndex name = .ok index := by rw [getIndex, hindex]
    obtain ⟨tree, hdelete, hlookup⟩ := delete_of_mem (h.describes.index name index hindex).2.2
    rw [hget, run_bind_of_ok (run_ofExcept _ _),
      run_bind_of_ok (run_deleteEntry hdelete),
      run_bind_of_ok (run_modify _ _), run_modify]
    dsimp only
    have hmem : name ∈ c.indexNames index.tableName :=
      (h.describes.listed _ _).mpr ⟨index, hindex, rfl⟩
    rw [unlist_of_mem (c := { c with tree := tree, indexes := _ }) hmem]
    refine ⟨?_, fun name' e he => isSome_lookup_insert (h.known name' e he)⟩
    have hnames := indexNames_insert (c := { c with
      tree := tree, indexes := c.indexes.erase name })
      index.tableName ((c.indexNames index.tableName).erase name)
    have hdrop := h.describes.dropIndex hindex
    rw [← hlookup] at hdrop
    exact hnames ▸ hdrop

/-- `DropTable` has the indexes `left` of the table still to drop. -/
structure Dropping (c : Catalog) (table : Bytes) (left : List Bytes) (s : Catalog) : Prop where
  describes : Describes s.tree.lookup (Function.update c.indexNames table left) s.tables s.indexes
  tables : s.tables = c.tables
  tableIndexes : s.tableIndexes = c.tableIndexes

theorem Dropping.step {left : List Bytes} {s : Catalog} (h : Dropping c table (name :: left) s) :
    ∃ s', (dropIndexEntry name).run s = (.ok (), s') ∧ Dropping c table left s' := by
  have hmem : name ∈ Function.update c.indexNames table (name :: left) table := by
    rw [Function.update_self]
    exact List.mem_cons_self
  obtain ⟨index, hindex, htable⟩ := (h.describes.listed _ _).mp hmem
  obtain ⟨tree, hdelete, hlookup⟩ := delete_of_mem (h.describes.index name index hindex).2.2
  refine ⟨{ s with tree := tree, indexes := s.indexes.erase name }, ?_, ?_, h.tables,
    h.tableIndexes⟩
  · rw [dropIndexEntry, run_bind_of_ok (run_deleteEntry hdelete), run_modify]
  · have hdrop := h.describes.dropIndex hindex
    rw [htable, Function.update_self, List.erase_cons_head, Function.update_idem] at hdrop
    rw [hlookup]
    exact hdrop

theorem Loaded.dropTable (h : c.Ok) (name : Bytes) : (c.step (.dropTable name)).Ok := by
  rw [Catalog.step, call, Catalog.dropTable, run_bind, run_get]
  dsimp only
  cases htable : c.tables.lookup name with
  | none =>
    have hget : c.getTable name = .error .tableNotFound := by rw [getTable, htable]
    rw [hget, run_bind_of_error (run_ofExcept _ _)]
    exact h
  | some d =>
    have hget : c.getTable name = .ok d := by rw [getTable, htable]
    have hstart : Dropping c name (c.indexNames name) c := by
      refine ⟨?_, rfl, rfl⟩
      rw [Function.update_eq_self]
      exact h.describes
    obtain ⟨s, hrun, hs⟩ := forEach_invariant (Dropping c name) dropIndexEntry hstart
      fun _ _ _ hs => hs.step
    rw [hget, run_bind_of_ok (run_ofExcept _ _), run_bind,
      run_get]
    dsimp only
    rw [run_bind_of_ok hrun, run_bind_of_ok (run_modify _ _)]
    have hs' : s.tables.lookup name = some d := by rw [hs.tables, htable]
    obtain ⟨tree, hdelete, hlookup⟩ := delete_of_mem (hs.describes.table name d hs').2.2
    rw [run_bind_of_ok (run_deleteEntry (c := { s with
      tableIndexes := s.tableIndexes.erase name }) hdelete), run_modify]
    have hnames : indexNames { s with
        tree := tree
        tableIndexes := s.tableIndexes.erase name
        tables := s.tables.erase name } = Function.update c.indexNames name [] := by
      funext table
      by_cases hname : table = name
      · subst hname
        rw [indexNames, AList.lookup_erase, Function.update_self, Option.getD_none]
      · rw [indexNames, AList.lookup_erase_ne hname, hs.tableIndexes, Function.update_of_ne hname,
          indexNames]
    have hdrop := hs.describes.dropTable hs'
    rw [← hlookup] at hdrop
    refine ⟨hnames ▸ hdrop, fun table e he => ?_⟩
    have hname : table ≠ name := by
      rintro rfl
      rw [AList.lookup_erase] at he
      cases he
    rw [AList.lookup_erase_ne hname, hs.tables] at he
    rw [AList.lookup_erase_ne hname, hs.tableIndexes]
    exact h.known table e he

theorem Loaded.step (h : c.Ok) {a : CatalogCall} (hsound : c.Sound a) : (c.step a).Ok := by
  cases a with
  | createTable root d => exact h.createTable root hsound
  | dropTable name => exact h.dropTable name
  | createIndex root d => exact h.createIndex root d
  | dropIndex name => exact h.dropIndex name

theorem stored_empty : Stored .empty := nofun

/-- Open a stored catalog and make any calls: after them a fresh `Open` has
the tables, the indexes and the index names of the live catalog. -/
theorem fresh_open_agrees {tree : OrderedTree} (htree : Stored tree) {c : Catalog}
    (hopen : openTree tree = .ok c) {calls : List CatalogCall}
    (hsound : Along Catalog.step Sound calls c) :
    ∃ fresh, openTree (calls.foldl Catalog.step c).tree = .ok fresh ∧
      Agrees (calls.foldl Catalog.step c) fresh := by
  obtain ⟨c', hc', hok, -⟩ := htree.openTree
  rw [hopen] at hc'
  cases hc'
  have hlive : (calls.foldl Catalog.step c).Ok :=
    hsound.invariant (fun _ _ h hs => h.step hs) hok
  obtain ⟨fresh, hfresh, hfreshOk, hfreshTree⟩ := (stored_of_ok hlive).openTree
  rw [Ok, hfreshTree] at hfreshOk
  exact ⟨fresh, hfresh, hlive.agrees hfreshOk⟩

/-- A catalog without a definition. -/
def blank : Catalog := { tree := .empty }

/-- A table, an index on it, and the table dropped with the index. -/
def sampleCalls : List CatalogCall :=
  [.createTable (.ok 7) sampleTable, .createIndex (.ok 8) sampleIndex, .dropTable sampleTable.name]

theorem fresh_open_agrees_sample :
    ∃ fresh, openTree (sampleCalls.foldl Catalog.step blank).tree = .ok fresh ∧
      Agrees (sampleCalls.foldl Catalog.step blank) fresh := by
  refine fresh_open_agrees stored_empty (c := blank) rfl ⟨⟨?_, nofun⟩, trivial, trivial, trivial⟩
  decide

/-- An index on a table that does not exist yet, and the table. -/
def indexFirst : List CatalogCall :=
  [.createIndex (.ok 8) sampleIndex, .createTable (.ok 7) sampleTable]

/-- `CreateTable` starts the list of the table's indexes anew, the tree
still has the index. -/
theorem index_before_table_is_forgotten :
    ¬ ∃ fresh, openTree (indexFirst.foldl Catalog.step blank).tree = .ok fresh ∧
      Agrees (indexFirst.foldl Catalog.step blank) fresh := by
  rintro ⟨fresh, hopen, hagrees⟩
  have htable : ((indexFirst.foldl Catalog.step blank).tables.lookup sampleTable.name).isSome := by
    decide +kernel
  have hlive : (indexFirst.foldl Catalog.step blank).indexesForTable sampleTable.name = .ok [] := by
    decide +kernel
  have hfresh : (openTree (indexFirst.foldl Catalog.step blank).tree).toOption.map
      (·.indexesForTable sampleTable.name) = some (.ok [sampleIndex]) := by
    decide +kernel
  rw [hopen] at hfresh
  obtain ⟨ds, ds', hds, hds', hnames⟩ := hagrees.indexesForTable _ htable
  rw [hlive] at hds
  cases hds
  have heq : fresh.indexesForTable sampleTable.name = .ok [sampleIndex] := Option.some.inj hfresh
  rw [heq] at hds'
  cases hds'
  exact absurd ((hnames sampleIndex.name).mpr (by decide)) (by decide)

/-! ### Dropping only removes -/

/-- Definitions may go. -/
structure Shrinks (c c' : Catalog) : Prop where
  tables : ∀ name d, c'.tables.lookup name = some d → c.tables.lookup name = some d
  indexes : ∀ name x, c'.indexes.lookup name = some x → c.indexes.lookup name = some x

instance : Std.Refl Shrinks := ⟨fun _ => ⟨fun _ _ h => h, fun _ _ h => h⟩⟩

instance : IsTrans Catalog Shrinks :=
  ⟨fun _ _ _ h h' => ⟨fun n d hd => h.tables n d (h'.tables n d hd),
    fun n x hx => h.indexes n x (h'.indexes n x hx)⟩⟩

theorem shrinks_deleteEntry (key : Bytes) : Keeps Shrinks (deleteEntry key) := by
  refine .get_bind fun c => ?_
  split
  · exact refl_of Shrinks c
  · exact ⟨fun _ _ h => h, fun _ _ h => h⟩

theorem shrinks_dropIndexEntry (name : Bytes) : Keeps Shrinks (dropIndexEntry name) :=
  .bind (shrinks_deleteEntry name) fun _ =>
    .modify fun _ => ⟨fun _ _ h => h, fun _ _ h => (lookup_of_erase h).2⟩

theorem shrinks_dropTable (name : Bytes) : Keeps Shrinks (dropTable name) := by
  refine .bind .get fun c => .bind (.ofExcept _) fun _ => .bind .get fun c' => ?_
  refine .bind (.forEach shrinks_dropIndexEntry _) fun _ => ?_
  refine .bind (.modify fun _ => ⟨fun _ _ h => h, fun _ _ h => h⟩) fun _ => ?_
  exact .bind (shrinks_deleteEntry name) fun _ =>
    .modify fun _ => ⟨fun _ _ h => (lookup_of_erase h).2, fun _ _ h => h⟩

theorem shrinks_unlist (c : Catalog) (table name : Bytes) : Shrinks c (c.unlist table name) := by
  rw [unlist]
  split_ifs
  · exact ⟨fun _ _ h => h, fun _ _ h => h⟩
  · exact refl_of Shrinks c

theorem shrinks_dropIndex (name : Bytes) : Keeps Shrinks (dropIndex name) := by
  refine .bind .get fun c => .bind (.ofExcept _) fun index => ?_
  refine .bind (shrinks_deleteEntry name) fun _ => ?_
  exact .bind (.modify fun _ => ⟨fun _ _ h => h, fun _ _ h => (lookup_of_erase h).2⟩) fun _ =>
    .modify fun c => shrinks_unlist c index.tableName name


end Catalog

end MySQLight.Schema
